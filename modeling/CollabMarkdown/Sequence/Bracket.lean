import Mathlib.Data.List.Basic
import Mathlib.Data.List.Nodup

/-!
# Bracket sequences

Brackets come in pairs named by an index.  A sequence nests properly when a
stack machine that pushes the name of every opening bracket finds it on top at
the closing one, and ends with an empty stack.  For a sequence in which every
name has one pair, the opening bracket first, this is the case exactly when no
two pairs cross.
-/

namespace CollabMarkdown.Sequence

universe u

/-- One half of the pair named by an index. -/
inductive Bracket (ι : Type u) where
  | opening (name : ι)
  | closing (name : ι)
  deriving DecidableEq, Repr

namespace Bracket

variable {ι : Type u}

/-- The name of the pair that a bracket belongs to. -/
def name : Bracket ι → ι
  | opening name => name
  | closing name => name

/-- The stack machine: the names on the stack are those of the open pairs. -/
def balanced [DecidableEq ι] : List ι → List (Bracket ι) → Bool
  | stack, [] => stack.isEmpty
  | stack, opening name :: rest => balanced (name :: stack) rest
  | [], closing _ :: _ => false
  | top :: stack, closing name :: rest => top = name && balanced stack rest

/-- The sequence nests properly. -/
def Nested [DecidableEq ι] (brackets : List (Bracket ι)) : Prop :=
  balanced [] brackets = true

instance [DecidableEq ι] (brackets : List (Bracket ι)) : Decidable (Nested brackets) :=
  inferInstanceAs (Decidable (_ = true))

/-- The second pair opens inside the first one and closes outside of it. -/
def Crosses (brackets : List (Bracket ι)) (first second : ι) : Prop :=
  [opening first, opening second, closing first, closing second].Sublist brackets

/-- Every name in the sequence has one pair, the opening bracket first. -/
structure Paired (brackets : List (Bracket ι)) : Prop where
  nodup : brackets.Nodup
  closed : ∀ name, opening name ∈ brackets → closing name ∈ brackets
  opened : ∀ name, closing name ∈ brackets →
    [opening name, closing name].Sublist brackets

/-- The whole sequence of a machine state: the open pairs and what is left to
read. -/
def whole (stack : List ι) (rest : List (Bracket ι)) : List (Bracket ι) :=
  stack.reverse.map opening ++ rest

theorem whole_opening (stack : List ι) (name : ι) (rest : List (Bracket ι)) :
    whole (name :: stack) rest = whole stack (opening name :: rest) := by
  simp [whole]

theorem whole_closing (stack : List ι) (name : ι) (rest : List (Bracket ι)) :
    whole (name :: stack) (closing name :: rest) =
      stack.reverse.map opening ++ [opening name, closing name] ++ rest := by
  simp [whole]

theorem mem_whole_opening {stack : List ι} {rest : List (Bracket ι)} {name : ι} :
    opening name ∈ whole stack rest ↔ name ∈ stack ∨ opening name ∈ rest := by
  simp [whole]

theorem mem_whole_closing {stack : List ι} {rest : List (Bracket ι)} {name : ι} :
    closing name ∈ whole stack rest ↔ closing name ∈ rest := by
  simp [whole]

/-! ## Removing an adjacent pair -/

theorem sublist_of_notMem_pair {α : Type u} {items before after : List α} {first second : α}
    (sublist : items.Sublist (before ++ [first, second] ++ after)) (noFirst : first ∉ items)
    (noSecond : second ∉ items) : items.Sublist (before ++ after) := by
  obtain ⟨head, tail, rfl, headSublist, tailSublist⟩ := List.sublist_append_iff.mp sublist
  obtain ⟨left, middle, rfl, leftSublist, middleSublist⟩ := List.sublist_append_iff.mp headSublist
  have empty : middle = [] := by
    apply List.eq_nil_iff_forall_not_mem.mpr
    intro item member
    rcases List.mem_pair.mp (middleSublist.subset member) with rfl | rfl
    · exact noFirst (by simp [member])
    · exact noSecond (by simp [member])
  rw [empty, List.append_nil]
  exact leftSublist.append tailSublist

/-- Nothing lies between two neighbours. -/
theorem not_between {α : Type u} {before after : List α} {first middle second : α}
    (nodup : (before ++ [first, second] ++ after).Nodup) :
    ¬[first, middle, second].Sublist (before ++ [first, second] ++ after) := by
  intro sublist
  induction before with
  | nil =>
      simp only [List.nil_append, List.cons_append, List.nodup_cons] at nodup
      cases sublist with
      | cons _ later => exact nodup.1 (later.subset List.mem_cons_self)
      | cons_cons _ later =>
          cases later with
          | cons _ rest => exact nodup.2.1 (rest.subset (by simp))
          | cons_cons _ rest => exact nodup.2.1 (rest.subset (by simp))
  | cons item before ih =>
      simp only [List.cons_append, List.nodup_cons] at nodup
      cases sublist with
      | cons _ later => exact ih nodup.2 later
      | cons_cons _ later => exact nodup.1 (by simp)

/-- An adjacent pair crosses no other one. -/
theorem Crosses.remove_pair {before after : List (Bracket ι)} {name first second : ι}
    (nodup : (before ++ [opening name, closing name] ++ after).Nodup)
    (crosses : Crosses (before ++ [opening name, closing name] ++ after) first second) :
    Crosses (before ++ after) first second := by
  have notFirst : name ≠ first := by
    rintro rfl
    have between : [opening name, opening second, closing name].Sublist
        [opening name, opening second, closing name, closing second] := by simp
    exact not_between nodup (between.trans crosses)
  have notSecond : name ≠ second := by
    rintro rfl
    have between : [opening name, closing first, closing name].Sublist
        [opening first, opening name, closing first, closing name] := by simp
    exact not_between nodup (between.trans crosses)
  exact sublist_of_notMem_pair crosses (by simp [notFirst, notSecond])
    (by simp [notFirst, notSecond])

/-! ## The stack machine finds the crossings -/

theorem not_crosses_of_balanced [DecidableEq ι] {stack : List ι} {rest : List (Bracket ι)}
    (nodup : (whole stack rest).Nodup) (accepted : balanced stack rest = true) (first second : ι) :
    ¬Crosses (whole stack rest) first second := by
  induction rest generalizing stack with
  | nil =>
      intro crosses
      have closed := mem_whole_closing.mp (crosses.subset (by simp : closing first ∈ _))
      exact List.not_mem_nil closed
  | cons bracket rest ih =>
      cases bracket with
      | opening name =>
          rw [← whole_opening] at nodup ⊢
          exact ih nodup accepted
      | closing name =>
          cases stack with
          | nil => simp [balanced] at accepted
          | cons top stack =>
              obtain ⟨rfl, later⟩ : top = name ∧ balanced stack rest = true := by
                simpa [balanced] using accepted
              rw [whole_closing] at nodup ⊢
              intro crosses
              have smaller : (whole stack rest).Nodup := nodup.sublist (by simp [whole])
              exact ih smaller later (crosses.remove_pair nodup)

theorem Paired.remove_pair {before after : List (Bracket ι)} {name : ι}
    (paired : Paired (before ++ [opening name, closing name] ++ after)) :
    Paired (before ++ after) := by
  have smaller : (before ++ after).Sublist (before ++ [opening name, closing name] ++ after) := by
    simp
  obtain ⟨noOpening, noClosing⟩ :
      opening name ∉ before ++ after ∧ closing name ∉ before ++ after := by
    have apart := paired.nodup
    simp only [List.nodup_append, List.nodup_cons, List.mem_append, List.mem_cons] at apart
    grind
  have other {bracket : Bracket ι} (member : bracket ∈ before ++ after) :
      bracket ≠ opening name ∧ bracket ≠ closing name :=
    ⟨fun equal => noOpening (equal ▸ member), fun equal => noClosing (equal ▸ member)⟩
  refine ⟨paired.nodup.sublist smaller, ?_, ?_⟩
  · intro inner member
    have distinct : inner ≠ name := fun equal => (other member).1 (congrArg opening equal)
    have closed := paired.closed inner (smaller.subset member)
    simpa [distinct] using closed
  · intro inner member
    have distinct : name ≠ inner := fun equal => (other member).2 (congrArg closing equal.symm)
    exact sublist_of_notMem_pair (paired.opened inner (smaller.subset member))
      (by simp [distinct]) (by simp [distinct])

/-- The pair of a closing bracket that is read next is open. -/
theorem mem_stack_of_paired {stack : List ι} {rest : List (Bracket ι)} {name : ι}
    (paired : Paired (whole stack (closing name :: rest))) : name ∈ stack := by
  have once : closing name ∉ rest := by
    have nodup := paired.nodup.sublist (List.sublist_append_right _ _)
    exact (List.nodup_cons.mp nodup).1
  have opened := paired.opened name (mem_whole_closing.mpr List.mem_cons_self)
  obtain ⟨before, after, split, beforeSublist, afterSublist⟩ := List.sublist_append_iff.mp opened
  cases before with
  | nil =>
      -- the opening bracket would have to follow the closing one
      rw [List.nil_append] at split
      rw [← split] at afterSublist
      cases afterSublist with
      | cons _ later => exact absurd (later.subset (by simp)) once
  | cons bracket before =>
      obtain ⟨rfl, -⟩ := List.cons.inj split
      simpa using beforeSublist.subset List.mem_cons_self

/-- If another pair was opened last, the two cross. -/
theorem crosses_of_top {stack : List ι} {rest : List (Bracket ι)} {name top : ι}
    (paired : Paired (whole (top :: stack) (closing name :: rest))) (below : name ∈ stack) :
    Crosses (whole (top :: stack) (closing name :: rest)) name top := by
  have openings : (top :: stack).reverse.map opening =
      stack.reverse.map opening ++ [opening top] := by simp
  have distinct : top ≠ name := by
    rintro rfl
    have nodup := paired.nodup.sublist (List.sublist_append_left _ _)
    rw [openings] at nodup
    simp only [List.nodup_append] at nodup
    exact nodup.2.2 (opening top) (by simpa using below) (opening top) (by simp) rfl
  have closed : closing top ∈ rest := by
    have member := paired.closed top (mem_whole_opening.mpr (.inl List.mem_cons_self))
    simpa [distinct] using mem_whole_closing.mp member
  have opened : [opening name].Sublist (stack.reverse.map opening) :=
    List.singleton_sublist.mpr (by simpa using below)
  rw [whole, openings]
  exact (opened.append (List.Sublist.refl [opening top])).append
    ((List.singleton_sublist.mpr closed).cons_cons (closing name))

theorem balanced_of_not_crosses [DecidableEq ι] {stack : List ι} {rest : List (Bracket ι)}
    (paired : Paired (whole stack rest))
    (uncrossed : ∀ first second, ¬Crosses (whole stack rest) first second) :
    balanced stack rest = true := by
  induction rest generalizing stack with
  | nil =>
      cases stack with
      | nil => rfl
      | cons top stack =>
          have closed := paired.closed top (mem_whole_opening.mpr (.inl List.mem_cons_self))
          exact absurd (mem_whole_closing.mp closed) List.not_mem_nil
  | cons bracket rest ih =>
      cases bracket with
      | opening name =>
          rw [← whole_opening] at paired uncrossed
          exact ih paired uncrossed
      | closing name =>
          have member := mem_stack_of_paired paired
          cases stack with
          | nil => exact absurd member List.not_mem_nil
          | cons top stack =>
              rcases List.mem_cons.mp member with rfl | below
              · rw [whole_closing] at paired uncrossed
                have smaller := ih paired.remove_pair fun first second crosses =>
                  uncrossed first second (List.Sublist.trans crosses (by simp [whole]))
                simp [balanced, smaller]
              · exact absurd (crosses_of_top paired below) (uncrossed name top)

/-- A sequence of pairs nests properly exactly when no two of them cross. -/
theorem nested_iff [DecidableEq ι] {brackets : List (Bracket ι)} (paired : Paired brackets) :
    Nested brackets ↔ ∀ first second, ¬Crosses brackets first second := by
  constructor
  · intro nested first second
    have nodup : (whole [] brackets).Nodup := paired.nodup
    exact not_crosses_of_balanced nodup nested first second
  · intro uncrossed
    have whole : Paired (whole [] brackets) := paired
    exact balanced_of_not_crosses whole uncrossed

end Bracket

end CollabMarkdown.Sequence
