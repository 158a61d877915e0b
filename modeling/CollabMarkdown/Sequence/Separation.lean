import CollabMarkdown.Sequence.Splice

/-!
# Cuts that separate items

Some items of a list belong to the left, some to the right, others to neither
side.  A cut separates them when the former stand before it and the latter behind
it.  A replacement on one side of a cut leaves it separating, moved by the change
in length if the replacement is made before it.
-/

namespace CollabMarkdown.Sequence

universe u

variable {α : Type u}

/-! ## What stands where after a replacement -/

section Replacement

variable {items data : List α} {start stop i : Nat}

theorem getElem?_replaceRange_before (inside : start ≤ items.length) (before : i < start) :
    (replaceRange items start stop data)[i]? = items[i]? := by
  have front : (items.take start).length = start := List.length_take_of_le inside
  rw [replaceRange, List.append_assoc, List.getElem?_append_left (by omega),
    List.getElem?_take_of_lt before]

theorem getElem?_replaceRange_new (inside : start ≤ items.length) (new : i < data.length) :
    (replaceRange items start stop data)[start + i]? = data[i]? := by
  have front : (items.take start).length = start := List.length_take_of_le inside
  rw [replaceRange, List.append_assoc, List.getElem?_append_right (by omega), front,
    Nat.add_sub_cancel_left, List.getElem?_append_left new]

theorem getElem?_replaceRange_behind (inside : start ≤ items.length) :
    (replaceRange items start stop data)[start + data.length + i]? = items[stop + i]? := by
  have front : (items.take start ++ data).length = start + data.length := by
    rw [List.length_append, List.length_take_of_le inside]
  rw [replaceRange, List.getElem?_append_right (by omega), front, Nat.add_sub_cancel_left,
    List.getElem?_drop]

/-- An item of the new list is an item in front of the range, a new one, or one
behind the range. -/
theorem getElem?_replaceRange_cases (inside : start ≤ items.length) {item : α}
    (found : (replaceRange items start stop data)[i]? = some item) :
    (i < start ∧ items[i]? = some item) ∨
      (start ≤ i ∧ i < start + data.length ∧ item ∈ data) ∨
      ∃ k, i = start + data.length + k ∧ items[stop + k]? = some item := by
  by_cases before : i < start
  · left
    exact ⟨before, by rwa [getElem?_replaceRange_before inside before] at found⟩
  · obtain ⟨j, rfl⟩ := Nat.exists_eq_add_of_le (Nat.le_of_not_lt before)
    right
    by_cases new : j < data.length
    · left
      rw [getElem?_replaceRange_new inside new] at found
      exact ⟨by omega, by omega, List.mem_of_getElem? found⟩
    · obtain ⟨k, rfl⟩ := Nat.exists_eq_add_of_le (Nat.le_of_not_lt new)
      right
      rw [← Nat.add_assoc, getElem?_replaceRange_behind inside] at found
      exact ⟨k, (Nat.add_assoc _ _ _).symm, found⟩

/-- An item that a replacement loses stood in the replaced range. -/
theorem index_of_lost (inside : start ≤ items.length) {item : α}
    (found : items[i]? = some item)
    (lost : item ∉ replaceRange items start stop data) : start ≤ i ∧ i < stop := by
  constructor
  · by_contra before
    apply lost
    apply List.mem_of_getElem? (i := i)
    rw [getElem?_replaceRange_before inside (Nat.lt_of_not_le before), found]
  · by_contra behind
    obtain ⟨k, rfl⟩ := Nat.exists_eq_add_of_le (Nat.le_of_not_lt behind)
    apply lost
    apply List.mem_of_getElem? (i := start + data.length + k)
    rw [getElem?_replaceRange_behind inside, found]

/-- An item of a list without repetition is lost when nothing takes the place of a
range it stands in. -/
theorem lost_of_index (nodup : items.Nodup) (inside : start ≤ items.length) {item : α}
    (found : items[i]? = some item) (after : start ≤ i) (before : i < stop) :
    item ∉ replaceRange items start stop [] := by
  have bound : i < items.length := (List.getElem?_eq_some_iff.mp found).1
  intro member
  obtain ⟨j, kept⟩ := List.mem_iff_getElem?.mp member
  rcases getElem?_replaceRange_cases inside kept with ⟨_, old⟩ | ⟨_, _, new⟩ | ⟨k, _, old⟩
  · have same := (List.getElem?_inj bound nodup).mp (found.trans old.symm)
    omega
  · exact absurd new List.not_mem_nil
  · have same := (List.getElem?_inj bound nodup).mp (found.trans old.symm)
    omega

end Replacement

/-! ## Cuts -/

/-- The items of the left stand before the cut, those of the right behind it. -/
structure Separates (left right : α → Prop) (items : List α) (cut : Nat) : Prop where
  inside : cut ≤ items.length
  before : ∀ i item, items[i]? = some item → left item → i < cut
  behind : ∀ i item, items[i]? = some item → right item → cut ≤ i

namespace Separates

variable {left right : α → Prop} {items : List α} {cut start stop : Nat}

/-- A replacement behind the cut, with no new item of the left. -/
theorem replace_behind (separates : Separates left right items cut) (ordered : start ≤ stop)
    (inside : stop ≤ items.length) (apart : cut ≤ start) (data : List α)
    (new : ∀ item ∈ data, ¬left item) :
    Separates left right (replaceRange items start stop data) cut where
  inside := by
    have := length_replaceRange ordered inside data
    omega
  before i item found isLeft := by
    rcases getElem?_replaceRange_cases (Nat.le_trans ordered inside) found with
      ⟨_, old⟩ | ⟨_, _, member⟩ | ⟨k, _, old⟩
    · exact separates.before i item old isLeft
    · exact absurd isLeft (new item member)
    · have := separates.before _ item old isLeft
      omega
  behind i item found isRight := by
    rcases getElem?_replaceRange_cases (Nat.le_trans ordered inside) found with
      ⟨_, old⟩ | ⟨_, _, _⟩ | ⟨k, _, _⟩
    · exact separates.behind i item old isRight
    · omega
    · omega

/-- A replacement before the cut, with no new item of the right. -/
theorem replace_before (separates : Separates left right items cut) (ordered : start ≤ stop)
    (apart : stop ≤ cut) (data : List α) (new : ∀ item ∈ data, ¬right item) :
    Separates left right (replaceRange items start stop data)
      (cut + data.length - (stop - start)) where
  inside := by
    have inside := separates.inside
    have := length_replaceRange ordered (Nat.le_trans apart inside) data
    omega
  before i item found isLeft := by
    have inside := separates.inside
    rcases getElem?_replaceRange_cases (by omega) found with
      ⟨_, old⟩ | ⟨_, _, _⟩ | ⟨k, _, old⟩
    · omega
    · omega
    · have := separates.before _ item old isLeft
      omega
  behind i item found isRight := by
    have inside := separates.inside
    rcases getElem?_replaceRange_cases (by omega) found with
      ⟨_, old⟩ | ⟨_, _, member⟩ | ⟨k, _, old⟩
    · have := separates.behind i item old isRight
      omega
    · exact absurd isRight (new item member)
    · have := separates.behind _ item old isRight
      omega

end Separates

end CollabMarkdown.Sequence
