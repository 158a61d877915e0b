import Mathlib.Data.List.ReduceOption

/-!
# Finite runs of a deterministic step function

A step takes a state and an input to a state and an output.  A run feeds it a
list of inputs and keeps the outputs in order.  The rules below lift facts about
one step to facts about whole runs: invariants, simulations between two
machines, and the comparison of a run with the same run from which some inputs
were purged.
-/

namespace CollabMarkdown.Transition

universe u v w x

variable {σ : Type u} {ι : Type v} {ω : Type w}

/-- Feed inputs to a step function, collecting one output for each. -/
def run (step : σ → ι → σ × ω) : σ → List ι → σ × List ω
  | state, [] => (state, [])
  | state, input :: rest =>
      let next := step state input
      let later := run step next.1 rest
      (later.1, next.2 :: later.2)

@[simp]
theorem run_nil (step : σ → ι → σ × ω) (state : σ) : run step state [] = (state, []) :=
  rfl

@[simp]
theorem run_cons (step : σ → ι → σ × ω) (state : σ) (input : ι) (rest : List ι) :
    run step state (input :: rest) =
      ((run step (step state input).1 rest).1,
        (step state input).2 :: (run step (step state input).1 rest).2) :=
  rfl

/-- A run goes on from where the first part of its inputs led. -/
theorem run_append (step : σ → ι → σ × ω) (state : σ) (first second : List ι) :
    run step state (first ++ second) =
      ((run step (run step state first).1 second).1,
        (run step state first).2 ++ (run step (run step state first).1 second).2) := by
  induction first generalizing state with
  | nil => rfl
  | cons input rest ih => simp [ih]

/-- What every step preserves holds throughout a run. -/
theorem run_invariant (step : σ → ι → σ × ω) (invariant : σ → Prop)
    (preserves : ∀ state input, invariant state → invariant (step state input).1)
    {state : σ} (initial : invariant state) (inputs : List ι) :
    invariant (run step state inputs).1 := by
  induction inputs generalizing state with
  | nil => exact initial
  | cons input rest ih => exact ih (preserves state input initial)

/-- An invariant that also speaks of the outputs so far and of the inputs still to
come. -/
theorem run_forecast (step : σ → ι → σ × ω) (invariant : List ω → σ → List ι → Prop)
    (preserves : ∀ history state input rest, invariant history state (input :: rest) →
      invariant (history ++ [(step state input).2]) (step state input).1 rest)
    {state : σ} (inputs : List ι) (initial : invariant [] state inputs) :
    invariant (run step state inputs).2 (run step state inputs).1 [] := by
  have extended (inputs : List ι) (history : List ω) (state : σ)
      (initial : invariant history state inputs) :
      invariant (history ++ (run step state inputs).2) (run step state inputs).1 [] := by
    induction inputs generalizing history state with
    | nil => simpa using initial
    | cons input rest ih =>
        have later := ih _ _ (preserves history state input rest initial)
        simpa using later
  simpa using extended inputs [] state initial

/-- An invariant that also speaks of the outputs so far, given as a relation
between the output history and the state. -/
theorem run_history (step : σ → ι → σ × ω) (invariant : List ω → σ → Prop)
    (preserves : ∀ history state input, invariant history state →
      invariant (history ++ [(step state input).2]) (step state input).1)
    {state : σ} (initial : invariant [] state) (inputs : List ι) :
    invariant (run step state inputs).2 (run step state inputs).1 :=
  run_forecast step (fun history state _ => invariant history state)
    (fun history state input _ => preserves history state input) inputs initial

/-- Every input of a run meets a condition in the state it is fed to. -/
def Meets (step : σ → ι → σ × ω) (condition : σ → ι → Prop) : σ → List ι → Prop
  | _, [] => True
  | state, input :: rest =>
      condition state input ∧ Meets step condition (step state input).1 rest

instance Meets.decidable (step : σ → ι → σ × ω) (condition : σ → ι → Prop)
    [∀ state input, Decidable (condition state input)] :
    (state : σ) → (inputs : List ι) → Decidable (Meets step condition state inputs)
  | _, [] => isTrue trivial
  | state, input :: rest =>
      have := Meets.decidable step condition (step state input).1 rest
      inferInstanceAs (Decidable (condition state input ∧ _))

/-- A run meets a condition if and only if it does up to its last input and meets it
there. -/
theorem Meets.concat_iff {step : σ → ι → σ × ω} {condition : σ → ι → Prop} {state : σ}
    {inputs : List ι} {input : ι} :
    Meets step condition state (inputs ++ [input]) ↔
      Meets step condition state inputs ∧ condition (run step state inputs).1 input := by
  induction inputs generalizing state with
  | nil => simp [Meets]
  | cons first rest ih => rw [List.cons_append, Meets, Meets, ih, run_cons, and_assoc]

/-- A run that meets two conditions meets both at once. -/
theorem Meets.and {step : σ → ι → σ × ω} {condition condition' : σ → ι → Prop} {state : σ}
    {inputs : List ι} (meets : Meets step condition state inputs)
    (meets' : Meets step condition' state inputs) :
    Meets step (fun state input => condition state input ∧ condition' state input) state
      inputs := by
  induction inputs generalizing state with
  | nil => trivial
  | cons input rest ih => exact ⟨⟨meets.1, meets'.1⟩, ih meets.2 meets'.2⟩

/-- What the steps that meet a condition preserve holds throughout a run that meets
it. -/
theorem Meets.history {step : σ → ι → σ × ω} {condition : σ → ι → Prop}
    (invariant : List ω → σ → Prop)
    (preserves : ∀ history state input, condition state input → invariant history state →
      invariant (history ++ [(step state input).2]) (step state input).1)
    {state : σ} (initial : invariant [] state) {inputs : List ι}
    (meets : Meets step condition state inputs) :
    invariant (run step state inputs).2 (run step state inputs).1 := by
  apply (run_forecast step
    (fun history state rest => invariant history state ∧ Meets step condition state rest)
    ?_ inputs ⟨initial, meets⟩).1
  rintro history state input rest ⟨holds, now, later⟩
  exact ⟨preserves history state input now holds, later⟩

/-- Two machines in related states meet their conditions on the same inputs, when on the
inputs allowed their conditions agree and the steps that meet them keep the states
related. -/
theorem Meets.iff_of_related {σ' : Type x} {ω' : Type w} {step : σ → ι → σ × ω}
    {step' : σ' → ι → σ' × ω'} {condition : σ → ι → Prop} {condition' : σ' → ι → Prop}
    (related : σ → σ' → Prop) {allowed : ι → Prop}
    (agree : ∀ state state' input, related state state' → allowed input →
      (condition state input ↔ condition' state' input) ∧
        (condition state input → related (step state input).1 (step' state' input).1))
    {state : σ} {state' : σ'} (initial : related state state') {inputs : List ι}
    (allows : ∀ input ∈ inputs, allowed input) :
    Meets step condition state inputs ↔ Meets step' condition' state' inputs := by
  induction inputs generalizing state state' with
  | nil => exact Iff.rfl
  | cons input rest ih =>
      rw [List.forall_mem_cons] at allows
      obtain ⟨same, next⟩ := agree state state' input initial allows.1
      constructor
      · rintro ⟨now, later⟩
        exact ⟨same.mp now, (ih (next now) allows.2).mp later⟩
      · rintro ⟨now, later⟩
        exact ⟨same.mpr now, (ih (next (same.mpr now)) allows.2).mpr later⟩

/-- Purging inputs.  Two runs stay related when a kept input takes related states
to related states with related outputs, and a purged input moves only the full
run.  The observations of the kept outputs agree. -/
theorem run_purge {κ : Type x} (step : σ → ι → σ × ω) (keep : ι → Bool)
    (related : σ → σ → Prop) (observe : ι → ω → Option κ)
    (kept : ∀ full purged input, related full purged → keep input = true →
      related (step full input).1 (step purged input).1 ∧
        observe input (step full input).2 = observe input (step purged input).2)
    (dropped : ∀ full purged input, related full purged → keep input = false →
      related (step full input).1 purged ∧ observe input (step full input).2 = none)
    {full purged : σ} (initial : related full purged) (inputs : List ι) :
    related (run step full inputs).1 (run step purged (inputs.filter keep)).1 ∧
      (List.zipWith observe inputs (run step full inputs).2).reduceOption =
        (List.zipWith observe (inputs.filter keep)
          (run step purged (inputs.filter keep)).2).reduceOption := by
  induction inputs generalizing full purged with
  | nil => exact ⟨initial, rfl⟩
  | cons input rest ih =>
      by_cases keeps : keep input = true
      · obtain ⟨next, same⟩ := kept full purged input initial keeps
        obtain ⟨last, later⟩ := ih next
        rw [List.filter_cons_of_pos keeps]
        refine ⟨last, ?_⟩
        simp only [run_cons, List.zipWith_cons_cons, same]
        cases observe input (step purged input).2 <;> simp [later]
      · obtain ⟨next, silent⟩ := dropped full purged input initial (by simpa using keeps)
        obtain ⟨last, later⟩ := ih next
        rw [List.filter_cons_of_neg keeps]
        refine ⟨last, ?_⟩
        simp only [run_cons, List.zipWith_cons_cons, silent]
        simpa using later

end CollabMarkdown.Transition
