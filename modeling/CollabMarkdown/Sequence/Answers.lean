import Mathlib.Data.Prod.Basic

/-!
# First answers

A list is searched from its front for the first item that has an answer.  Two ways of
answering find the same answer at the same item exactly if they agree on the first item
that has an answer in either way.
-/

namespace CollabMarkdown.Sequence

universe u v w

variable {α : Type u} {β : Type v} {γ : Type w}

/-- The first answer along a list, with the number of items in front of it. -/
def firstAnswer (f : α → Option β) : List α → Option (Nat × β)
  | [] => none
  | item :: rest =>
      match f item with
      | some answer => some (0, answer)
      | none => (firstAnswer f rest).map (Prod.map (· + 1) id)

@[simp]
theorem firstAnswer_nil (f : α → Option β) : firstAnswer f [] = none :=
  rfl

theorem firstAnswer_cons (f : α → Option β) (item : α) (rest : List α) :
    firstAnswer f (item :: rest) =
      ((f item).map (0, ·)).or ((firstAnswer f rest).map (Prod.map (· + 1) id)) := by
  rw [firstAnswer]
  cases f item <;> rfl

/-- Answers can be translated. -/
theorem firstAnswer_map (f : α → Option β) (g : β → γ) (items : List α) :
    firstAnswer (fun item => (f item).map g) items =
      (firstAnswer f items).map (Prod.map id g) := by
  induction items with
  | nil => rfl
  | cons item rest ih =>
      rw [firstAnswer_cons, firstAnswer_cons, ih]
      cases f item with
      | some answer => rfl
      | none => simp [Prod.map_comp_map]

/-- An answer with nothing in front of it is the first item's. -/
theorem firstAnswer_cons_eq_zero_iff {f : α → Option β} {item : α} {rest : List α} {answer : β} :
    firstAnswer f (item :: rest) = some (0, answer) ↔ f item = some answer := by
  rw [firstAnswer_cons]
  cases f item with
  | some other => simp
  | none => simp [Prod.map]

/-- Two searches agree exactly if they agree on the first item with an answer in either. -/
theorem firstAnswer_eq_iff {f g : α → Option β} {items : List α} :
    firstAnswer f items = firstAnswer g items ↔
      ∀ item, items.find? (fun item => (f item).isSome || (g item).isSome) = some item →
        f item = g item := by
  let answered (item : α) : Bool := (f item).isSome || (g item).isSome
  change _ ↔ ∀ item, items.find? answered = some item → f item = g item
  induction items with
  | nil => simp
  | cons item rest ih =>
      by_cases answers : answered item = true
      · rw [List.find?_cons_of_pos answers]
        have first : firstAnswer f (item :: rest) = firstAnswer g (item :: rest) ↔
            f item = g item := by
          cases ours : f item with
          | some answer =>
              rw [firstAnswer_cons_eq_zero_iff.mpr ours, eq_comm, firstAnswer_cons_eq_zero_iff,
                eq_comm]
          | none =>
              obtain ⟨answer, theirs⟩ : ∃ answer, g item = some answer :=
                Option.isSome_iff_exists.mp (by simpa [answered, ours] using answers)
              rw [firstAnswer_cons_eq_zero_iff.mpr theirs, firstAnswer_cons_eq_zero_iff, theirs,
                ours]
        simpa using first
      · rw [List.find?_cons_of_neg answers, ← ih, firstAnswer_cons, firstAnswer_cons]
        have next : Function.Injective fun n : Nat => n + 1 := fun _ _ => Nat.succ.inj
        have shift : Function.Injective (Option.map (Prod.map (· + 1) (id : β → β))) :=
          Option.map_injective (next.prodMap Function.injective_id)
        obtain ⟨ours, theirs⟩ : f item = none ∧ g item = none := by simpa [answered] using answers
        rw [ours, theirs]
        exact shift.eq_iff

end CollabMarkdown.Sequence
