import CollabMarkdown.Transition.CriticalSections
import CollabMarkdown.Transition.Progress

/-!
# Waiting for a mutex

Threads with bounded sections on a schedule without end.  If no holder of the mutex is left
without steps, the mutex comes free again and again; and if it is fair to a thread, that
thread meets it free again and again.
-/

namespace CollabMarkdown.Transition.LockedProgram

universe u v w x

variable {τ : Type u} {π : Type v} {σ : Type w} {ι : Type x} [DecidableEq τ]
  (program : LockedProgram τ π σ ι)

/-- Whoever holds the mutex takes another step. -/
def HoldersStep (start : LockedState τ π σ) (schedule : Nat → ι) : Prop :=
  ∀ n t, ((firstInputs schedule n).foldl program.step start).holder = some t →
    ∃ m, n ≤ m ∧ program.actor (schedule m) = some t

/-- The mutex does not pass over a thread for ever: if it comes free again and again, the
thread steps at such times again and again. -/
def FairTo (t : τ) (start : LockedState τ π σ) (schedule : Nat → ι) : Prop :=
  (∀ n, ∃ m, n ≤ m ∧ ((firstInputs schedule m).foldl program.step start).holder = none) →
    ∀ n, ∃ m, n ≤ m ∧ program.actor (schedule m) = some t ∧
      ((firstInputs schedule m).foldl program.step start).holder = none

variable {program} {good : LockedState τ π σ → Prop} {rank : LockedState τ π σ → Nat}
  {start : LockedState τ π σ} {schedule : Nat → ι}

/-- No section lasts for ever. -/
theorem free_again (commutes : program.Commutes good) (bounded : program.Bounded good rank)
    (bracketed : program.Bracketed) (holds : good start) (exclusive : program.Exclusive start)
    (holders : program.HoldersStep start schedule) (n : Nat) :
    ∃ m, n ≤ m ∧ ((firstInputs schedule m).foldl program.step start).holder = none := by
  let states (n : Nat) : LockedState τ π σ := (firstInputs schedule n).foldl program.step start
  have next (n : Nat) : states (n + 1) = program.step (states n) (schedule n) := by
    simp only [states, firstInputs_succ, List.foldl_append]
    rfl
  have sound (n : Nat) : good (states n) ∧ program.Exclusive (states n) := by
    induction n with
    | zero => exact ⟨holds, exclusive⟩
    | succ n ih =>
        rw [next]
        exact ⟨commutes.step ih.1 ih.2 (schedule n), ih.2.step bracketed (schedule n)⟩
  have steps (t : τ) (n : Nat) : ∃ m, n ≤ m ∧
      ((states m).holder = some t → program.actor (schedule m) = some t) := by
    by_cases held : (states n).holder = some t
    · obtain ⟨m, later, own⟩ := holders n t held
      exact ⟨m, later, fun _ => own⟩
    · exact ⟨n, Nat.le_refl n, fun now => absurd now held⟩
  let left (s : LockedState τ π σ) : Nat := if s.holder.isSome then rank s + 1 else 0
  have progress (n : Nat) (t : τ) (held : (states n).holder = some t) :
      left (states (n + 1)) < left (states n) ∨
        ¬((states n).holder = some t → program.actor (schedule n) = some t) ∧
          left (states (n + 1)) ≤ left (states n) ∧ (states (n + 1)).holder = some t := by
    obtain ⟨holds, exclusive⟩ := sound n
    rw [next]
    rcases bounded.step_held holds exclusive held (schedule n) with
      ⟨still, steady, lowers⟩ | ⟨-, free⟩
    · by_cases own : program.actor (schedule n) = some t
      · have lower := lowers own
        exact .inl (by simpa [left, still, held] using lower)
      · exact .inr ⟨fun acts => own (acts held), by simpa [left, still, held] using steady, still⟩
    · exact .inl (by simp [left, free, held])
  obtain ⟨m, later, -, free⟩ := reaches_of_rank states steps (fun _ => True)
    (fun s => s.holder = none) (fun t s => s.holder = some t) left (fun _ _ _ => trivial)
    (fun s _ taken => Option.ne_none_iff_exists'.mp taken)
    (fun n t _ _ held => progress n t held) (n := n) trivial
  exact ⟨m, later, free⟩

/-- Who holds the mutex has taken a step. -/
theorem actor_of_holder {s : LockedState τ π σ} {inputs : List ι} {t : τ}
    (free : s.holder = none) (held : (inputs.foldl program.step s).holder = some t) :
    ∃ input ∈ inputs, program.actor input = some t := by
  induction inputs using List.reverseRecOn with
  | nil =>
      rw [List.foldl_nil, free] at held
      contradiction
  | append_singleton inputs input ih =>
      rw [List.foldl_append, List.foldl_cons, List.foldl_nil] at held
      have earlier (before : (inputs.foldl program.step s).holder = some t) :
          ∃ other ∈ inputs ++ [input], program.actor other = some t := by
        obtain ⟨other, member, actor⟩ := ih before
        exact ⟨other, List.mem_append_left _ member, actor⟩
      cases actor : program.actor input with
      | none =>
          rw [step_world actor] at held
          exact earlier held
      | some u =>
          rw [step_actor actor] at held
          cases found : program.current (inputs.foldl program.step s) u with
          | lock next =>
              by_cases open_ : (inputs.foldl program.step s).holder = none
              · rw [exec_lock found open_] at held
                exact ⟨input, by simp, actor.trans held⟩
              · rw [exec_blocked found open_] at held
                exact earlier held
          | inside work =>
              rw [exec_inside found] at held
              exact earlier held
          | outside work =>
              rw [exec_outside found] at held
              exact earlier held
          | unlock next =>
              rw [exec_unlock found] at held
              contradiction

end CollabMarkdown.Transition.LockedProgram
