import Mathlib.Data.List.Basic

/-!
# Replacing a range of a list

`replaceRange` is the one primitive behind insertions (an empty range) and
deletions (no new items).  The rules below say how long the result is, that two
replacements at separate places can be made in either order when the right one
is moved by what the left one adds, and what moving a replacement by some
distance does.
-/

namespace CollabMarkdown.Sequence

universe u

variable {α : Type u}

/-- The list with the items from `start` up to `stop` replaced. -/
def replaceRange (items : List α) (start stop : Nat) (data : List α) : List α :=
  items.take start ++ data ++ items.drop stop

theorem length_replaceRange {items : List α} {start stop : Nat} (ordered : start ≤ stop)
    (inside : stop ≤ items.length) (data : List α) :
    (replaceRange items start stop data).length + (stop - start) = items.length + data.length := by
  simp [replaceRange]
  omega

/-- A list cut at two places. -/
theorem exists_cut {items : List α} {start stop : Nat} (ordered : start ≤ stop)
    (inside : stop ≤ items.length) :
    ∃ before middle after, items = before ++ middle ++ after ∧
      before.length = start ∧ before.length + middle.length = stop := by
  refine ⟨items.take start, (items.drop start).take (stop - start), items.drop stop, ?_, ?_, ?_⟩
  · have rest : items.drop stop = (items.drop start).drop (stop - start) := by
      rw [List.drop_drop]
      congr 1
      omega
    rw [List.append_assoc, rest, List.take_append_drop, List.take_append_drop]
  · simp
    omega
  · simp
    omega

theorem replaceRange_append (before middle after data : List α) :
    replaceRange (before ++ middle ++ after) before.length (before.length + middle.length) data =
      before ++ data ++ after := by
  rw [replaceRange, List.append_assoc before middle after, List.take_left,
    ← List.append_assoc before middle after, ← List.length_append, List.drop_left]

/-- The list with two ranges replaced, the first one to the left of the second. -/
def replaceTwo (items : List α) (a b : Nat) (left : List α) (c d : Nat) (right : List α) :
    List α :=
  items.take a ++ left ++ (items.drop b).take (c - b) ++ right ++ items.drop d

theorem replaceTwo_append (before first middle second after left right : List α) {a b c d : Nat}
    (a_eq : a = before.length) (b_eq : b = a + first.length) (c_eq : c = b + middle.length)
    (d_eq : d = c + second.length) :
    replaceTwo (before ++ first ++ middle ++ second ++ after) a b left c d right =
      before ++ left ++ middle ++ right ++ after := by
  subst a_eq b_eq c_eq d_eq
  have head : (before ++ first ++ middle ++ second ++ after).take before.length = before := by
    rw [List.append_assoc, List.append_assoc, List.append_assoc, List.take_left]
  have tail : (before ++ first ++ middle ++ second ++ after).drop (before.length + first.length) =
      middle ++ (second ++ after) := by
    rw [List.append_assoc, List.append_assoc (before ++ first), ← List.length_append,
      List.drop_left]
  have last : (before ++ first ++ middle ++ second ++ after).drop
      (before.length + first.length + middle.length + second.length) = after := by
    rw [← List.length_append, ← List.length_append, ← List.length_append, List.drop_left]
  rw [replaceTwo, head, tail, last, Nat.add_sub_cancel_left, List.take_left]

/-- Both ranges of a list cut out. -/
theorem exists_cut_two {items : List α} {a b c d : Nat} (ab : a ≤ b) (bc : b ≤ c) (cd : c ≤ d)
    (inside : d ≤ items.length) :
    ∃ before first middle second after,
      items = before ++ first ++ middle ++ second ++ after ∧
        a = before.length ∧ b = a + first.length ∧ c = b + middle.length ∧
        d = c + second.length := by
  obtain ⟨before, first, rest, items_eq, a_eq, b_eq⟩ :=
    exists_cut ab (Nat.le_trans (Nat.le_trans bc cd) inside)
  have length_eq : items.length = b + rest.length := by
    rw [items_eq, List.length_append, List.length_append, b_eq]
  have room : d - b ≤ rest.length := by omega
  obtain ⟨middle, second, after, rest_eq, c_eq, d_eq⟩ :=
    exists_cut (Nat.sub_le_sub_right cd b) room
  refine ⟨before, first, middle, second, after, ?_, a_eq.symm, ?_, ?_, ?_⟩
  · rw [items_eq, rest_eq]
    simp
  all_goals omega

/-- Making the right replacement first leaves the place of the left one. -/
theorem replaceRange_right_first {items : List α} {a b c d : Nat} (ab : a ≤ b) (bc : b ≤ c)
    (cd : c ≤ d) (inside : d ≤ items.length) (left right : List α) :
    replaceRange (replaceRange items c d right) a b left =
      replaceTwo items a b left c d right := by
  obtain ⟨before, first, middle, second, after, rfl, a_eq, b_eq, c_eq, d_eq⟩ :=
    exists_cut_two ab bc cd inside
  rw [replaceTwo_append _ _ _ _ _ _ _ a_eq b_eq c_eq d_eq]
  have placed : replaceRange (before ++ first ++ middle ++ second ++ after) c d right =
      before ++ first ++ (middle ++ right ++ after) := by
    have c_len : c = (before ++ first ++ middle).length := by simp; omega
    rw [d_eq, c_len, replaceRange_append]
    simp
  rw [placed, b_eq, a_eq, replaceRange_append]
  simp

/-- Making the left replacement first moves the right one by what it adds. -/
theorem replaceRange_left_first {items : List α} {a b c d : Nat} (ab : a ≤ b) (bc : b ≤ c)
    (cd : c ≤ d) (inside : d ≤ items.length) (left right : List α) :
    replaceRange (replaceRange items a b left) (c + left.length - (b - a))
        (d + left.length - (b - a)) right =
      replaceTwo items a b left c d right := by
  obtain ⟨before, first, middle, second, after, rfl, a_eq, b_eq, c_eq, d_eq⟩ :=
    exists_cut_two ab bc cd inside
  rw [replaceTwo_append _ _ _ _ _ _ _ a_eq b_eq c_eq d_eq]
  have placed : replaceRange (before ++ first ++ middle ++ second ++ after) a b left =
      before ++ left ++ middle ++ second ++ after := by
    have whole : before ++ first ++ middle ++ second ++ after =
        before ++ first ++ (middle ++ second ++ after) := by simp
    rw [whole, b_eq, a_eq, replaceRange_append]
    simp
  have start_eq : c + left.length - (b - a) = (before ++ left ++ middle).length := by
    simp
    omega
  have stop_eq : d + left.length - (b - a) =
      (before ++ left ++ middle).length + second.length := by
    simp
    omega
  rw [placed, start_eq, stop_eq, replaceRange_append]

/-- Two places for a replacement, `distance` items apart: at the near one, the last
of the items under both places are kept. -/
theorem replaceRange_near {items : List α} {start size distance first stop : Nat}
    (first_eq : first = start) (stop_eq : stop = start + size)
    (inside : start + distance + size ≤ items.length) (data : List α) :
    replaceRange items first stop data =
      items.take start ++ data ++ ((items.drop start).take (distance + size)).drop size ++
        items.drop (start + distance + size) := by
  have long : ((items.drop start).take (distance + size)).length = distance + size := by
    simp
    omega
  have rest : (items.drop start).drop size =
      ((items.drop start).take (distance + size)).drop size ++
        (items.drop start).drop (distance + size) := by
    rw [← List.drop_append_of_le_length (by omega), List.take_append_drop]
  rw [first_eq, stop_eq, replaceRange, ← List.drop_drop, rest, List.drop_drop, Nat.add_assoc,
    List.append_assoc _ _ (items.drop _)]

/-- At the far one, the first of them are kept. -/
theorem replaceRange_far {items : List α} {start size distance first stop : Nat}
    (first_eq : first = start + distance) (stop_eq : stop = start + distance + size)
    (data : List α) :
    replaceRange items first stop data =
      items.take start ++ ((items.drop start).take (distance + size)).take distance ++ data ++
        items.drop (start + distance + size) := by
  rw [first_eq, stop_eq, replaceRange, List.take_add, List.take_take,
    Nat.min_eq_left (Nat.le_add_right distance size)]

end CollabMarkdown.Sequence
