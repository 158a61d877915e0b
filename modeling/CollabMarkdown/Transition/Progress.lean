import CollabMarkdown.Transition.Run
import Mathlib.Order.Basic

/-!
# Infinite runs

A schedule gives a step function its inputs one after the other, without end.  The rules
say what a fair schedule brings about: what waits for a step that comes again and again is
reached, and so is what a rank leads to that the steps of an actor lower.
-/

namespace CollabMarkdown.Transition

universe u v w

variable {σ : Type u} {ι : Type v} {κ : Type w}

/-- The state after some steps of a schedule. -/
def trajectory (step : σ → ι → σ) (start : σ) (schedule : Nat → ι) : Nat → σ
  | 0 => start
  | n + 1 => step (trajectory step start schedule n) (schedule n)

/-- What each step keeps holds all along. -/
theorem trajectory_invariant (step : σ → ι → σ) {invariant : σ → Prop}
    (preserves : ∀ state input, invariant state → invariant (step state input)) {start : σ}
    (initial : invariant start) (schedule : Nat → ι) (n : Nat) :
    invariant (trajectory step start schedule n) := by
  induction n with
  | zero => exact initial
  | succ n ih => exact preserves _ _ ih

/-- The first inputs of a schedule. -/
def firstInputs (schedule : Nat → ι) (n : Nat) : List ι :=
  (List.range n).map schedule

theorem firstInputs_succ (schedule : Nat → ι) (n : Nat) :
    firstInputs schedule (n + 1) = firstInputs schedule n ++ [schedule n] := by
  rw [firstInputs, List.range_succ, List.map_append, ← firstInputs]
  rfl

theorem firstInputs_mono (schedule : Nat → ι) {n m : Nat} (le : n ≤ m) :
    firstInputs schedule n <+: firstInputs schedule m := by
  induction le with
  | refl => exact List.prefix_rfl
  | step _ ih =>
      rw [firstInputs_succ]
      exact ih.trans (List.prefix_append _ _)

section

variable (states : Nat → σ)

/-- What waits for a step is done with, when that step comes again and again. -/
theorem reaches_of_waiting {acts : Nat → Prop} (fair : ∀ n, ∃ m, n ≤ m ∧ acts m)
    (waiting done : σ → Prop)
    (kept : ∀ n, waiting (states n) →
      done (states (n + 1)) ∨ ¬acts n ∧ waiting (states (n + 1)))
    {n : Nat} (now : waiting (states n)) : ∃ m, n ≤ m ∧ done (states m) := by
  obtain ⟨m, later, here⟩ := fair n
  induction distance : m - n generalizing n with
  | zero =>
      obtain rfl : m = n := by omega
      rcases kept m now with done | ⟨idle, -⟩
      · exact ⟨m + 1, Nat.le_succ m, done⟩
      · exact absurd here idle
  | succ distance ih =>
      rcases kept n now with done | ⟨-, still⟩
      · exact ⟨n + 1, Nat.le_succ n, done⟩
      · obtain ⟨last, after, done⟩ := ih still (by omega) (by omega)
        exact ⟨last, Nat.le_of_succ_le after, done⟩

/-- The goal is reached when some actor can always lower the rank, and stays able to until
it is lowered. -/
theorem reaches_of_rank {acts : Nat → κ → Prop} (fair : ∀ actor n, ∃ m, n ≤ m ∧ acts m actor)
    (invariant goal : σ → Prop) (enabled : κ → σ → Prop) (rank : σ → Nat)
    (kept : ∀ n, invariant (states n) → ¬goal (states n) → invariant (states (n + 1)))
    (someone : ∀ state, invariant state → ¬goal state → ∃ actor, enabled actor state)
    (progress : ∀ n actor, invariant (states n) → ¬goal (states n) → enabled actor (states n) →
      rank (states (n + 1)) < rank (states n) ∨
        ¬acts n actor ∧ rank (states (n + 1)) ≤ rank (states n) ∧ enabled actor (states (n + 1)))
    {n : Nat} (now : invariant (states n)) :
    ∃ m, n ≤ m ∧ invariant (states m) ∧ goal (states m) := by
  induction size : rank (states n) using Nat.strongRecOn generalizing n with
  | ind bound ih =>
      by_cases reached : goal (states n)
      · exact ⟨n, Nat.le_refl n, now, reached⟩
      · obtain ⟨actor, able⟩ := someone _ now reached
        -- Until the actor steps, the rank does not rise and the actor stays able.
        have keeps (k : Nat) (still : (invariant (states k) ∧ ¬goal (states k)) ∧
            rank (states k) ≤ bound ∧ enabled actor (states k)) :
            (invariant (states (k + 1)) ∧
                (goal (states (k + 1)) ∨ rank (states (k + 1)) < bound)) ∨
              ¬acts k actor ∧ (invariant (states (k + 1)) ∧ ¬goal (states (k + 1))) ∧
                rank (states (k + 1)) ≤ bound ∧ enabled actor (states (k + 1)) := by
          obtain ⟨⟨holds, onward⟩, low, ready⟩ := still
          have next := kept k holds onward
          rcases progress k actor holds onward ready with lower | ⟨idle, level, ready⟩
          · exact .inl ⟨next, .inr (Nat.lt_of_lt_of_le lower low)⟩
          · by_cases there : goal (states (k + 1))
            · exact .inl ⟨next, .inl there⟩
            · exact .inr ⟨idle, ⟨next, there⟩, Nat.le_trans level low, ready⟩
        obtain ⟨m, later, holds, there | lower⟩ := reaches_of_waiting states (fair actor)
          (fun state => (invariant state ∧ ¬goal state) ∧ rank state ≤ bound ∧
            enabled actor state)
          (fun state => invariant state ∧ (goal state ∨ rank state < bound))
          keeps ⟨⟨now, reached⟩, Nat.le_of_eq size, able⟩
        · exact ⟨m, later, holds, there⟩
        · obtain ⟨last, after, result⟩ := ih _ lower holds rfl
          exact ⟨last, Nat.le_trans later after, result⟩

end

end CollabMarkdown.Transition
