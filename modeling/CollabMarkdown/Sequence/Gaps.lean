import CollabMarkdown.Sequence.Splice

/-!
# Filling the gaps of a list

A list of `n` items has `n + 1` gaps: gap `k` is in front of item `k`, the last one
behind all items.  `weave` puts a list into each gap.  An insertion into the woven
list at a place inside a gap fills that gap further, leaves the gaps up to it where
they start, and moves all later ones by its length.
-/

namespace CollabMarkdown.Sequence

universe u v

variable {α : Type u}

/-- The items with the fillings of the gaps between them. -/
def weave (gaps : Nat → List α) : List α → List α
  | [] => gaps 0
  | item :: rest => gaps 0 ++ item :: weave (fun k => gaps (k + 1)) rest

/-- Where the filling of a gap starts. -/
def gapStart (gaps : Nat → List α) : Nat → Nat
  | 0 => 0
  | k + 1 => (gaps 0).length + 1 + gapStart (fun j => gaps (j + 1)) k

/-- The fillings with that of gap `k` replaced. -/
def refill (gaps : Nat → List α) (k : Nat) (filling : List α) : Nat → List α :=
  fun j => if j = k then filling else gaps j

/-- Insert data into gap `k`, behind the first `offset` items there. -/
def fillGap (gaps : Nat → List α) (k offset : Nat) (data : List α) : Nat → List α :=
  refill gaps k (replaceRange (gaps k) offset offset data)

section Rules

variable {gaps : Nat → List α} {items : List α} {j k offset : Nat}

@[simp]
theorem refill_same (filling : List α) : refill gaps k filling k = filling :=
  if_pos rfl

theorem refill_other (other : j ≠ k) (filling : List α) : refill gaps k filling j = gaps j :=
  if_neg other

theorem refill_self : refill gaps k (gaps k) = gaps := by
  funext j
  by_cases here : j = k
  · rw [here, refill_same]
  · rw [refill_other here]

theorem refill_refill (first second : List α) :
    refill (refill gaps k first) k second = refill gaps k second := by
  funext j
  simp only [refill]
  split <;> rfl

theorem refill_succ (filling : List α) :
    (fun j => refill gaps (k + 1) filling (j + 1)) = refill (fun j => gaps (j + 1)) k filling := by
  funext j
  simp [refill]

theorem fillGap_front (data : List α) :
    fillGap gaps k 0 data = fun j => (if k = j then data else []) ++ gaps j := by
  funext j
  by_cases here : k = j
  · subst here
    simp [fillGap, replaceRange]
  · rw [fillGap, refill_other (Ne.symm here), if_neg here, List.nil_append]

theorem map_weave {β : Type v} (f : α → β) :
    (weave gaps items).map f = weave (fun k => (gaps k).map f) (items.map f) := by
  induction items generalizing gaps with
  | nil => rfl
  | cons item rest ih => simp [weave, ih]

theorem weave_nil (items : List α) : weave (fun _ => []) items = items := by
  induction items with
  | nil => rfl
  | cons item rest ih => simp [weave, ih]

theorem gapStart_nil (k : Nat) : gapStart (fun _ => ([] : List α)) k = k := by
  induction k with
  | zero => rfl
  | succ k ih => simp [gapStart, ih, Nat.add_comm]

theorem gapStart_succ : gapStart gaps (k + 1) = gapStart gaps k + (gaps k).length + 1 := by
  induction k generalizing gaps with
  | zero => simp [gapStart]
  | succ k ih =>
      rw [gapStart, ih]
      simp only [gapStart]
      omega

/-- The filling of a gap does not move its start. -/
theorem gapStart_refill_self (filling : List α) :
    gapStart (refill gaps k filling) k = gapStart gaps k := by
  induction k generalizing gaps with
  | zero => rfl
  | succ k ih => rw [gapStart, gapStart, refill_other (Nat.succ_ne_zero k).symm, refill_succ, ih]

theorem gapStart_add_lt (gaps : Nat → List α) (before : j < k) :
    gapStart gaps j + (gaps j).length < gapStart gaps k := by
  induction k with
  | zero => omega
  | succ k ih =>
      rw [gapStart_succ]
      rcases Nat.lt_or_eq_of_le (Nat.le_of_lt_succ before) with earlier | rfl
      · have := ih earlier
        omega
      · omega

/-- A place inside gap `k` is before the start of another gap exactly if that is a
later gap. -/
theorem place_lt_gapStart_iff (inside : offset ≤ (gaps k).length) :
    gapStart gaps k + offset < gapStart gaps j ↔ k < j := by
  constructor
  · intro before
    by_contra notBefore
    rcases Nat.lt_or_eq_of_le (Nat.le_of_not_lt notBefore) with earlier | rfl
    · have := gapStart_add_lt gaps earlier
      omega
    · omega
  · intro later
    have := gapStart_add_lt gaps later
    omega

theorem gapStart_fillGap (inside : offset ≤ (gaps k).length) (data : List α) :
    gapStart (fillGap gaps k offset data) j =
      if k < j then gapStart gaps j + data.length else gapStart gaps j := by
  induction j with
  | zero => simp [gapStart]
  | succ j ih =>
      rw [gapStart_succ, gapStart_succ, ih]
      by_cases here : j = k
      · subst here
        have longer := length_replaceRange (Nat.le_refl offset) inside data
        rw [fillGap, refill_same, if_neg (Nat.lt_irrefl j), if_pos (Nat.lt_succ_self j)]
        omega
      · rw [fillGap, refill_other here]
        split <;> split <;> omega

theorem gapStart_le_length (gaps : Nat → List α) (inside : k ≤ items.length) :
    gapStart gaps k + (gaps k).length ≤ (weave gaps items).length := by
  induction items generalizing gaps k with
  | nil =>
      obtain rfl := Nat.le_zero.mp inside
      simp [gapStart, weave]
  | cons item rest ih =>
      cases k with
      | zero => simp [gapStart, weave]
      | succ k =>
          have later := ih (fun j => gaps (j + 1)) (Nat.le_of_succ_le_succ inside)
          simp only [gapStart, weave, List.length_append, List.length_cons]
          omega

theorem mem_weave {item : α} (member : item ∈ weave gaps items) :
    item ∈ items ∨ ∃ j, item ∈ gaps j := by
  induction items generalizing gaps with
  | nil => exact .inr ⟨0, member⟩
  | cons first rest ih =>
      simp only [weave, List.mem_append, List.mem_cons] at member
      rcases member with filling | rfl | later
      · exact .inr ⟨0, filling⟩
      · exact .inl List.mem_cons_self
      · rcases ih later with inRest | ⟨j, filling⟩
        · exact .inl (List.mem_cons_of_mem _ inRest)
        · exact .inr ⟨j + 1, filling⟩

/-- A woven list is the part up to a gap, the filling of that gap, and the rest. -/
theorem exists_weave_refill (gaps : Nat → List α) (inside : k ≤ items.length) :
    ∃ front back, front.length = gapStart gaps k ∧
      front.getLast? = (items.take k).getLast? ∧
      (∀ item ∈ front ++ back, item ∈ items ∨ ∃ j, j ≠ k ∧ item ∈ gaps j) ∧
      ∀ filling, weave (refill gaps k filling) items = front ++ filling ++ back := by
  induction items generalizing gaps k with
  | nil =>
      obtain rfl := Nat.le_zero.mp inside
      refine ⟨[], [], rfl, rfl, by simp, ?_⟩
      intro filling
      simp [weave, refill]
  | cons first rest ih =>
      cases k with
      | zero =>
          refine ⟨[], first :: weave (fun j => gaps (j + 1)) rest, rfl, rfl, ?_, ?_⟩
          · intro item member
            rcases List.mem_cons.mp member with rfl | later
            · exact .inl List.mem_cons_self
            · rcases mem_weave later with inRest | ⟨j, filling⟩
              · exact .inl (List.mem_cons_of_mem _ inRest)
              · exact .inr ⟨j + 1, Nat.succ_ne_zero j, filling⟩
          · intro filling
            simp [weave, refill]
      | succ k =>
          obtain ⟨front, back, length_eq, last_eq, members, whole⟩ :=
            ih (fun j => gaps (j + 1)) (Nat.le_of_succ_le_succ inside)
          refine ⟨gaps 0 ++ first :: front, back, ?_, ?_, ?_, ?_⟩
          · simp only [List.length_append, List.length_cons, gapStart, length_eq]
            omega
          · rw [List.getLast?_append, List.take_succ_cons, List.getLast?_cons, List.getLast?_cons,
              last_eq]
            simp
          · intro item member
            simp only [List.append_assoc, List.cons_append, List.mem_append, List.mem_cons]
              at member
            rcases member with filling | rfl | rest
            · exact .inr ⟨0, (Nat.succ_ne_zero k).symm, filling⟩
            · exact .inl List.mem_cons_self
            · rcases members item (List.mem_append.mpr rest) with inRest | ⟨j, other, filling⟩
              · exact .inl (List.mem_cons_of_mem _ inRest)
              · exact .inr ⟨j + 1, by omega, filling⟩
          · intro filling
            rw [weave, refill_succ, whole]
            simp [refill]

/-- An insertion into the woven list at a place inside a gap. -/
theorem replaceRange_weave (inItems : k ≤ items.length) (inside : offset ≤ (gaps k).length)
    (data : List α) :
    replaceRange (weave gaps items) (gapStart gaps k + offset) (gapStart gaps k + offset) data =
      weave (fillGap gaps k offset data) items := by
  obtain ⟨front, back, length_eq, -, -, whole⟩ := exists_weave_refill gaps inItems
  have now := whole (gaps k)
  rw [refill_self] at now
  rw [fillGap, whole, now, ← length_eq]
  simp only [replaceRange, List.append_assoc, List.take_length_add_append,
    List.drop_length_add_append]
  rw [List.take_append_of_le_length inside, List.drop_append_of_le_length inside]

end Rules

/-! ## Gaps filled once -/

/-- Lists of which at most one is nonempty can be appended in any order. -/
theorem flatMap_eq_of_perm {ι : Type v} {f : ι → List α} {first second : List ι}
    (perm : first.Perm second) (apart : first.Pairwise fun a b => f a = [] ∨ f b = []) :
    first.flatMap f = second.flatMap f := by
  induction perm with
  | nil => rfl
  | cons a _ ih => rw [List.flatMap_cons, List.flatMap_cons, ih (List.pairwise_cons.mp apart).2]
  | swap a b rest =>
      have clear := (List.pairwise_cons.mp apart).1 a List.mem_cons_self
      simp only [List.flatMap_cons]
      rcases clear with none | none <;> simp [none]
  | trans earlier _ ih ih' =>
      have later := earlier.pairwise apart fun clear => clear.symm
      exact (ih apart).trans (ih' later)

end CollabMarkdown.Sequence
