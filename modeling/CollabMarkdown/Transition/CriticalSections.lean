import Mathlib.Logic.Function.Basic
import Mathlib.Data.List.Induction

/-!
# Critical sections

Threads with programs of their own share a state and one mutex.  A section is
what a thread does between taking the mutex and giving it back; outside its
sections a thread, like the environment, takes only steps that commute with the
work that others do under the mutex.  Then every interleaving of single steps
comes to the same as one in which each section runs without interruption, at the
place where its thread takes the mutex.
-/

namespace CollabMarkdown.Transition

universe u v w x

/-- What a thread does at a point of its program: wait for the mutex, work under it,
give it back, or work without it. -/
inductive Instr (π : Type v) (σ : Type w) where
  | lock (next : π)
  | inside (work : σ → π × σ)
  | unlock (next : π)
  | outside (work : σ → π × σ)

/-- The instruction belongs to a section. -/
def Instr.guarded {π : Type v} {σ : Type w} : Instr π σ → Bool
  | .inside _ | .unlock _ => true
  | .lock _ | .outside _ => false

/-- Programs for the threads, the thread whose step an input is, and what the other
inputs do to the shared state. -/
structure LockedProgram (τ : Type u) (π : Type v) (σ : Type w) (ι : Type x) where
  instr : τ → π → Instr π σ
  actor : ι → Option τ
  world : ι → σ → σ

/-- The shared state, where each thread stands, and who holds the mutex. -/
structure LockedState (τ : Type u) (π : Type v) (σ : Type w) where
  shared : σ
  points : τ → π
  holder : Option τ

/-- The state with a thread at a point of its section. -/
def LockedState.within {τ : Type u} {π : Type v} {σ : Type w} [DecidableEq τ] (points : τ → π)
    (t : τ) (point : π) (shared : σ) : LockedState τ π σ :=
  ⟨shared, Function.update points t point, some t⟩

namespace LockedProgram

variable {τ : Type u} {π : Type v} {σ : Type w} {ι : Type x} [DecidableEq τ]
  (program : LockedProgram τ π σ ι)

/-- The instruction a thread stands at. -/
def current (s : LockedState τ π σ) (t : τ) : Instr π σ :=
  program.instr t (s.points t)

/-- One step of a thread.  It waits in front of a mutex that is taken. -/
def exec (s : LockedState τ π σ) (t : τ) : LockedState τ π σ :=
  match program.current s t with
  | .lock next =>
      if s.holder.isNone then
        { s with points := Function.update s.points t next, holder := some t }
      else
        s
  | .inside work | .outside work =>
      ⟨(work s.shared).2, Function.update s.points t (work s.shared).1, s.holder⟩
  | .unlock next => { s with points := Function.update s.points t next, holder := none }

/-- One input: a step of a thread, or of the world around the program. -/
def step (s : LockedState τ π σ) (input : ι) : LockedState τ π σ :=
  match program.actor input with
  | some t => program.exec s t
  | none => { s with shared := program.world input s.shared }

/-! ## Mutual exclusion -/

/-- A section starts with the mutex taken and ends with giving it back. -/
structure Bracketed : Prop where
  lock : ∀ {t point next}, program.instr t point = .lock next →
    (program.instr t next).guarded = true
  inside : ∀ {t point work}, program.instr t point = .inside work →
    ∀ shared, (program.instr t (work shared).1).guarded = true
  unlock : ∀ {t point next}, program.instr t point = .unlock next →
    (program.instr t next).guarded = false
  outside : ∀ {t point work}, program.instr t point = .outside work →
    ∀ shared, (program.instr t (work shared).1).guarded = false

/-- The thread that holds the mutex, and no other, is in a section. -/
def Exclusive (s : LockedState τ π σ) : Prop :=
  ∀ t, (program.current s t).guarded = true ↔ s.holder = some t

variable {program}

section

variable {s : LockedState τ π σ} {t : τ}

theorem exec_lock {next : π} (found : program.current s t = .lock next)
    (free : s.holder = none) :
    program.exec s t =
      { s with points := Function.update s.points t next, holder := some t } := by
  simp [exec, found, free]

/-- Taking the mutex leads into the section. -/
theorem exec_enter {next : π} (found : program.current s t = .lock next)
    (free : s.holder = none) : program.exec s t = .within s.points t next s.shared :=
  exec_lock found free

theorem exec_blocked {next : π} (found : program.current s t = .lock next)
    (taken : s.holder ≠ none) : program.exec s t = s := by
  have some_ : s.holder.isNone = false := by
    cases held : s.holder with
    | none => exact absurd held taken
    | some _ => rfl
  simp [exec, found, some_]

theorem exec_inside {work : σ → π × σ} (found : program.current s t = .inside work) :
    program.exec s t =
      ⟨(work s.shared).2, Function.update s.points t (work s.shared).1, s.holder⟩ := by
  simp [exec, found]

theorem exec_outside {work : σ → π × σ} (found : program.current s t = .outside work) :
    program.exec s t =
      ⟨(work s.shared).2, Function.update s.points t (work s.shared).1, s.holder⟩ := by
  simp [exec, found]

theorem exec_unlock {next : π} (found : program.current s t = .unlock next) :
    program.exec s t =
      { s with points := Function.update s.points t next, holder := none } := by
  simp [exec, found]

theorem step_actor {input : ι} (actor : program.actor input = some t) :
    program.step s input = program.exec s t := by
  simp [step, actor]

theorem step_world {input : ι} (actor : program.actor input = none) :
    program.step s input = { s with shared := program.world input s.shared } := by
  simp [step, actor]

/-- A step of a thread leaves the others where they stand. -/
theorem points_exec_of_ne {other : τ} (apart : other ≠ t) :
    (program.exec s t).points other = s.points other := by
  cases found : program.current s t with
  | lock next =>
      by_cases free : s.holder = none
      · simp [exec_lock found free, apart]
      · rw [exec_blocked found free]
  | inside work => simp [exec_inside found, apart]
  | unlock next => simp [exec_unlock found, apart]
  | outside work => simp [exec_outside found, apart]

theorem current_exec_of_ne {other : τ} (apart : other ≠ t) :
    program.current (program.exec s t) other = program.current s other := by
  rw [current, points_exec_of_ne apart, ← current]

end

namespace Exclusive

variable {s : LockedState τ π σ} {t : τ}

theorem exec (exclusive : program.Exclusive s) (bracketed : program.Bracketed) (t : τ) :
    program.Exclusive (program.exec s t) := by
  intro other
  by_cases here : other = t
  · subst here
    cases found : program.current s other with
    | lock next =>
        by_cases free : s.holder = none
        · rw [exec_lock found free]
          simpa [current] using bracketed.lock found
        · rw [exec_blocked found free]
          exact exclusive other
    | inside work =>
        have held : s.holder = some other :=
          (exclusive other).mp (congrArg Instr.guarded found)
        rw [exec_inside found]
        simpa [current, held] using bracketed.inside found s.shared
    | unlock next =>
        rw [exec_unlock found]
        simpa [current] using bracketed.unlock found
    | outside work =>
        have other_holds : s.holder ≠ some other := by
          rw [ne_eq, ← exclusive other, found]
          exact Bool.false_ne_true
        rw [exec_outside found]
        simpa [current, other_holds] using bracketed.outside found s.shared
  · rw [current_exec_of_ne here, exclusive other]
    cases found : program.current s t with
    | lock next =>
        by_cases free : s.holder = none
        · simp [exec_lock found free, free, Ne.symm here]
        · rw [exec_blocked found free]
    | inside work => rw [exec_inside found]
    | unlock next =>
        have held : s.holder = some t := (exclusive t).mp (congrArg Instr.guarded found)
        simp [exec_unlock found, held, Ne.symm here]
    | outside work => rw [exec_outside found]

theorem step (exclusive : program.Exclusive s) (bracketed : program.Bracketed) (input : ι) :
    program.Exclusive (program.step s input) := by
  cases actor : program.actor input with
  | none =>
      rw [step_world actor]
      exact exclusive
  | some t =>
      rw [step_actor actor]
      exact exclusive.exec bracketed t

omit [DecidableEq τ] in
/-- The holder works or gives the mutex back. -/
theorem holder_cases (exclusive : program.Exclusive s) (held : s.holder = some t) :
    (∃ work, program.current s t = .inside work) ∨
      ∃ next, program.current s t = .unlock next := by
  have guarded := (exclusive t).mpr held
  cases found : program.current s t with
  | inside work => exact .inl ⟨work, rfl⟩
  | unlock next => exact .inr ⟨next, rfl⟩
  | lock next | outside work =>
      rw [found] at guarded
      cases guarded

omit [DecidableEq τ] in
/-- Any other thread waits for the mutex or works without it. -/
theorem other_cases (exclusive : program.Exclusive s) (other : s.holder ≠ some t) :
    (∃ next, program.current s t = .lock next) ∨
      ∃ work, program.current s t = .outside work := by
  have unguarded : ¬(program.current s t).guarded = true := fun inside =>
    other ((exclusive t).mp inside)
  cases found : program.current s t with
  | lock next => exact .inl ⟨next, rfl⟩
  | outside work => exact .inr ⟨work, rfl⟩
  | inside work | unlock next =>
      rw [found] at unguarded
      exact absurd rfl unguarded

end Exclusive

/-! ## Running a section to its end -/

variable (program)

/-- In `n` steps of its own the holder reaches the end of its section. -/
inductive Settles : Nat → LockedState τ π σ → LockedState τ π σ → Prop
  | free {s : LockedState τ π σ} (free : s.holder = none) : Settles 0 s s
  | work {n : Nat} {s settled : LockedState τ π σ} {t : τ} (held : s.holder = some t)
      (later : Settles n (program.exec s t) settled) : Settles (n + 1) s settled

variable {program}

namespace Settles

variable {n : Nat} {s settled : LockedState τ π σ} {t : τ}

theorem settled_free (settles : program.Settles n s settled) : settled.holder = none := by
  induction settles with
  | free free => exact free
  | work _ _ ih => exact ih

theorem eq_of_free (settles : program.Settles n s settled) (free : s.holder = none) :
    settled = s := by
  cases settles with
  | free => rfl
  | work held =>
      rw [free] at held
      cases held

/-- A step of the holder stays on the way. -/
theorem next (settles : program.Settles n s settled) (held : s.holder = some t) :
    ∃ m, program.Settles m (program.exec s t) settled := by
  cases settles with
  | free free =>
      rw [free] at held
      cases held
  | work held' later =>
      cases held.symm.trans held'
      exact ⟨_, later⟩

theorem unique {m : Nat} {settled' : LockedState τ π σ} (settles : program.Settles n s settled)
    (settles' : program.Settles m s settled') : settled' = settled := by
  induction settles generalizing m with
  | free free => exact settles'.eq_of_free free
  | work held _ ih =>
      obtain ⟨_, later⟩ := settles'.next held
      exact ih later

/-- What the steps of a holder keep, the whole way keeps. -/
theorem invariant {P : LockedState τ π σ → Prop} (settles : program.Settles n s settled)
    (preserves : ∀ s t, s.holder = some t → P s → P (program.exec s t)) (initial : P s) :
    P settled := by
  induction settles with
  | free => exact initial
  | work held _ ih => exact ih (preserves _ _ held initial)

/-- A thread that does not hold the mutex does not move meanwhile. -/
theorem points_of_ne (settles : program.Settles n s settled) (other : s.holder ≠ some t)
    (exclusive : program.Exclusive s) (bracketed : program.Bracketed) :
    settled.points t = s.points t := by
  induction settles with
  | free => rfl
  | @work _ s _ t' held _ ih =>
      have apart : t ≠ t' := fun same => other (same ▸ held)
      have next : (program.exec s t').holder ≠ some t := by
        rcases exclusive.holder_cases held with ⟨work, found⟩ | ⟨next, found⟩
        · rw [exec_inside found]
          exact other
        · rw [exec_unlock found]
          rintro ⟨⟩
      rw [ih next (exclusive.exec bracketed t'), points_exec_of_ne apart]

section

variable {points : τ → π} {point : π} {shared : σ}

/-- One more step in front. -/
theorem inside {work : σ → π × σ} (found : program.instr t point = .inside work)
    (later : program.Settles n (.within points t (work shared).1 (work shared).2) settled) :
    program.Settles (n + 1) (.within points t point shared) settled := by
  have here : program.current (.within points t point shared) t = .inside work := by
    simpa [current, LockedState.within] using found
  have worked : program.exec (.within points t point shared) t =
      .within points t (work shared).1 (work shared).2 := by
    rw [exec_inside here]
    simp [LockedState.within]
  rw [← worked] at later
  exact .work rfl later

/-- The last step of a section. -/
theorem unlock {next : π} (found : program.instr t point = .unlock next) :
    program.Settles 1 (.within points t point shared)
      ⟨shared, Function.update points t next, none⟩ := by
  have here : program.current (.within points t point shared) t = .unlock next := by
    simpa [current, LockedState.within] using found
  have unlocked : program.exec (.within points t point shared) t =
      ⟨shared, Function.update points t next, none⟩ := by
    rw [exec_unlock here]
    simp [LockedState.within]
  have done : program.Settles 0 (program.exec (.within points t point shared) t)
      ⟨shared, Function.update points t next, none⟩ := by
    rw [unlocked]
    exact .free rfl
  exact .work rfl done

end

end Settles

/-! ## Commuting -/

variable (program)

/-- What threads outside their sections and the environment do commutes with the
work under the mutex, in good states. -/
structure Commutes (good : LockedState τ π σ → Prop) : Prop where
  exec : ∀ s t, good s → program.Exclusive s → good (program.exec s t)
  world : ∀ s input, program.actor input = none → good s → good (program.step s input)
  outside : ∀ s t other work work', good s → s.holder = some t → other ≠ t →
    program.current s t = .inside work → program.current s other = .outside work' →
      (work (work' s.shared).2).1 = (work s.shared).1 ∧
        (work' (work s.shared).2).1 = (work' s.shared).1 ∧
        (work (work' s.shared).2).2 = (work' (work s.shared).2).2
  environment : ∀ s t input work, good s → s.holder = some t →
    program.current s t = .inside work → program.actor input = none →
      (work (program.world input s.shared)).1 = (work s.shared).1 ∧
        (work (program.world input s.shared)).2 = program.world input (work s.shared).2

variable {program}

namespace Commutes

variable {good : LockedState τ π σ → Prop} {s settled : LockedState τ π σ} {n : Nat}

theorem step (commutes : program.Commutes good) (holds : good s)
    (exclusive : program.Exclusive s) (input : ι) : good (program.step s input) := by
  cases actor : program.actor input with
  | none => exact commutes.world s input actor holds
  | some t =>
      rw [step_actor actor]
      exact commutes.exec s t holds exclusive

/-- A step outside the sections does not change what the holder reaches, but for
the step itself. -/
theorem settles_outside (commutes : program.Commutes good) (bracketed : program.Bracketed)
    (settles : program.Settles n s settled) (holds : good s) (exclusive : program.Exclusive s)
    {other : τ} {work' : σ → π × σ} (found' : program.current s other = .outside work') :
    program.Settles n (program.exec s other) (program.exec settled other) := by
  induction settles with
  | free free =>
      apply Settles.free
      rw [exec_outside found']
      exact free
  | @work _ s _ t held _ ih =>
      have apart : other ≠ t := by
        rintro rfl
        have guarded := (exclusive other).mpr held
        rw [found'] at guarded
        cases guarded
      have kept : program.current (program.exec s t) other = .outside work' := by
        rw [current_exec_of_ne apart, found']
      have stays : program.current (program.exec s other) t = program.current s t :=
        current_exec_of_ne apart.symm
      have held' : (program.exec s other).holder = some t := by
        rw [exec_outside found']
        exact held
      have swap :
          program.exec (program.exec s t) other = program.exec (program.exec s other) t := by
        rcases exclusive.holder_cases held with ⟨work, found⟩ | ⟨next, found⟩
        · obtain ⟨same, same', swapped⟩ :=
            commutes.outside s t other work work' holds held apart found found'
          rw [exec_outside kept, exec_inside (stays.trans found), exec_inside found,
            exec_outside found']
          simp only [same, same', swapped, Function.update_comm apart]
        · rw [exec_outside kept, exec_unlock (stays.trans found), exec_unlock found,
            exec_outside found']
          simp only [Function.update_comm apart]
      have later := ih (commutes.exec s t holds exclusive) (exclusive.exec bracketed t) kept
      rw [swap] at later
      exact .work held' later

theorem settles_world (commutes : program.Commutes good) (bracketed : program.Bracketed)
    (settles : program.Settles n s settled) (holds : good s) (exclusive : program.Exclusive s)
    {input : ι} (actor : program.actor input = none) :
    program.Settles n (program.step s input) (program.step settled input) := by
  induction settles with
  | free free =>
      apply Settles.free
      rw [step_world actor]
      exact free
  | @work _ s _ t held _ ih =>
      have later := ih (commutes.exec s t holds exclusive) (exclusive.exec bracketed t)
      have stays : program.current (program.step s input) t = program.current s t := by
        rw [step_world actor]
        rfl
      have held' : (program.step s input).holder = some t := by
        rw [step_world actor]
        exact held
      have swap : program.step (program.exec s t) input =
          program.exec (program.step s input) t := by
        rcases exclusive.holder_cases held with ⟨work, found⟩ | ⟨next, found⟩
        · obtain ⟨same, swapped⟩ := commutes.environment s t input work holds held found actor
          rw [exec_inside (stays.trans found), exec_inside found, step_world actor,
            step_world actor]
          simp only [same, swapped]
        · rw [exec_unlock (stays.trans found), exec_unlock found, step_world actor,
            step_world actor]
      rw [swap] at later
      exact .work held' later

end Commutes

/-! ## Sections that end -/

variable (program)

/-- The work of a section lowers a rank, and nobody else raises it. -/
structure Bounded (good : LockedState τ π σ → Prop) (rank : LockedState τ π σ → Nat) : Prop where
  lowers : ∀ s t work, good s → s.holder = some t → program.current s t = .inside work →
    rank (program.exec s t) < rank s
  outside : ∀ s t other work, good s → s.holder = some t → other ≠ t →
    program.current s other = .outside work → rank (program.exec s other) ≤ rank s
  environment : ∀ s input, good s → program.actor input = none →
    rank (program.step s input) ≤ rank s

variable {program}

namespace Bounded

variable {good : LockedState τ π σ → Prop} {rank : LockedState τ π σ → Nat}

/-- The rank bounds the steps that a section still takes. -/
theorem settles (bounded : program.Bounded good rank) (commutes : program.Commutes good)
    (bracketed : program.Bracketed) {s : LockedState τ π σ} (holds : good s)
    (exclusive : program.Exclusive s) :
    ∃ n ≤ rank s + 1, ∃ settled, program.Settles n s settled := by
  induction rank_eq : rank s using Nat.strongRecOn generalizing s with
  | ind bound ih =>
      cases held : s.holder with
      | none => exact ⟨0, Nat.zero_le _, s, .free held⟩
      | some t =>
          rcases exclusive.holder_cases held with ⟨work, found⟩ | ⟨next, found⟩
          · have lower := bounded.lowers s t work holds held found
            obtain ⟨n, within, settled, settles⟩ := ih _ (rank_eq ▸ lower)
              (commutes.exec s t holds exclusive) (exclusive.exec bracketed t) rfl
            exact ⟨n + 1, by omega, settled, .work held settles⟩
          · have free : (program.exec s t).holder = none := by rw [exec_unlock found]
            exact ⟨1, by omega, _, .work held (.free free)⟩

/-- Whoever steps, the holder keeps the mutex and the rank does not rise; but the steps of
the holder lower it, or give the mutex back. -/
theorem step_held (bounded : program.Bounded good rank) {s : LockedState τ π σ} (holds : good s)
    (exclusive : program.Exclusive s) {t : τ} (held : s.holder = some t) (input : ι) :
    ((program.step s input).holder = some t ∧ rank (program.step s input) ≤ rank s ∧
        (program.actor input = some t → rank (program.step s input) < rank s)) ∨
      program.actor input = some t ∧ (program.step s input).holder = none := by
  cases actor : program.actor input with
  | none =>
      have steady := bounded.environment s input holds actor
      have still : (program.step s input).holder = some t := by rwa [step_world actor]
      exact .inl ⟨still, steady, fun own => by contradiction⟩
  | some u =>
      rw [step_actor actor]
      by_cases own : u = t
      · subst own
        rcases exclusive.holder_cases held with ⟨work, found⟩ | ⟨next, found⟩
        · have lower := bounded.lowers s u work holds held found
          have still : (program.exec s u).holder = some u := by rwa [exec_inside found]
          exact .inl ⟨still, Nat.le_of_lt lower, fun _ => lower⟩
        · exact .inr ⟨rfl, by rw [exec_unlock found]⟩
      · have differ : ¬some u = some t := fun same => own (Option.some.inj same)
        have other : s.holder ≠ some u := by
          rw [held]
          exact fun same => differ same.symm
        rcases exclusive.other_cases other with ⟨next, found⟩ | ⟨work, found⟩
        · have taken : s.holder ≠ none := by
            rw [held]
            exact Option.some_ne_none t
          rw [exec_blocked found taken]
          exact .inl ⟨held, Nat.le_refl _, fun same => absurd same differ⟩
        · have steady := bounded.outside s t u work holds held own found
          have still : (program.exec s u).holder = some t := by rwa [exec_outside found]
          exact .inl ⟨still, steady, fun same => absurd same differ⟩

/-- Whatever the others do in between, a holder that gets its steps gives the mutex
back. -/
theorem released (bounded : program.Bounded good rank) (commutes : program.Commutes good)
    (bracketed : program.Bracketed) {s : LockedState τ π σ} (holds : good s)
    (exclusive : program.Exclusive s) {t : τ} (held : s.holder = some t) {schedule : List ι}
    (enough : rank s < schedule.countP (program.actor · = some t)) :
    ∃ first, first <+: schedule ∧ (first.foldl program.step s).holder = none := by
  induction schedule generalizing s with
  | nil => simp at enough
  | cons input rest ih =>
      rw [List.countP_cons] at enough
      rcases bounded.step_held holds exclusive held input with
        ⟨still, steady, lowers⟩ | ⟨-, free⟩
      · have less : rank (program.step s input) < rest.countP (program.actor · = some t) := by
          by_cases own : program.actor input = some t
          · have lower := lowers own
            simp only [own, decide_true, if_true] at enough
            omega
          · simp only [own, decide_false, Bool.false_eq_true, if_false] at enough
            omega
        obtain ⟨first, isPrefix, free⟩ :=
          ih (commutes.step holds exclusive input) (exclusive.step bracketed input) still less
        exact ⟨input :: first, (List.prefix_cons_inj input).mpr isPrefix, free⟩
      · exact ⟨[input], (List.prefix_cons_inj input).mpr List.nil_prefix, free⟩

end Bounded

/-! ## Reduction -/

variable (program)

/-- A run in which every section goes through to its end without interruption. -/
inductive SerialRun (start : LockedState τ π σ) : List ι → LockedState τ π σ → Prop
  | nil : SerialRun start [] start
  | snoc {inputs : List ι} {s settled : LockedState τ π σ} {n : Nat} {input : ι}
      (earlier : SerialRun start inputs s)
      (settles : program.Settles n (program.step s input) settled) :
      SerialRun start (inputs ++ [input]) settled

variable {program}

theorem SerialRun.free {start s : LockedState τ π σ} {inputs : List ι}
    (serial : program.SerialRun start inputs s) (free : start.holder = none) :
    s.holder = none := by
  cases serial with
  | nil => exact free
  | snoc _ settles => exact settles.settled_free

/-- Good states stay good along a run of whole sections. -/
theorem SerialRun.invariant {good : LockedState τ π σ → Prop} {start s : LockedState τ π σ}
    {inputs : List ι} (serial : program.SerialRun start inputs s)
    (commutes : program.Commutes good) (bracketed : program.Bracketed) (holds : good start)
    (exclusive : program.Exclusive start) : good s ∧ program.Exclusive s := by
  induction serial with
  | nil => exact ⟨holds, exclusive⟩
  | @snoc _ before _ _ input _ settles ih =>
      obtain ⟨holds, exclusive⟩ := ih
      apply settles.invariant (P := fun s => good s ∧ program.Exclusive s)
      · rintro s t - ⟨holds, exclusive⟩
        exact ⟨commutes.exec s t holds exclusive, exclusive.exec bracketed t⟩
      · exact ⟨commutes.step holds exclusive input, exclusive.step bracketed input⟩

/-- The step starts a section, or goes outside of them.  The other steps of a schedule
are inside a section, or in front of one that is taken. -/
def starts (program : LockedProgram τ π σ ι) (s : LockedState τ π σ) (input : ι) : Bool :=
  match program.actor input, s.holder with
  | some t, some t' =>
      if t = t' then false
      else
        match program.current s t with
        | .outside _ => true
        | .lock _ | .inside _ | .unlock _ => false
  | _, _ => true

/-- A schedule of whole sections, from one of single steps. -/
def serialized (program : LockedProgram τ π σ ι) : LockedState τ π σ → List ι → List ι
  | _, [] => []
  | s, input :: rest =>
      if program.starts s input then input :: program.serialized (program.step s input) rest
      else program.serialized (program.step s input) rest

theorem serialized_append (s : LockedState τ π σ) (first second : List ι) :
    program.serialized s (first ++ second) =
      program.serialized s first ++ program.serialized (first.foldl program.step s) second := by
  induction first generalizing s with
  | nil => rfl
  | cons input rest ih =>
      simp only [List.cons_append, serialized, ih, List.foldl_cons]
      split <;> rfl

/-- A serialized schedule keeps the order of the steps, and all those of the
environment. -/
theorem serialized_sublist (s : LockedState τ π σ) (schedule : List ι) :
    (program.serialized s schedule).Sublist schedule := by
  induction schedule generalizing s with
  | nil => exact List.Sublist.refl _
  | cons input rest ih =>
      rw [serialized]
      split
      · exact (ih _).cons_cons input
      · exact (ih _).cons input

variable (program) in
theorem filter_serialized (s : LockedState τ π σ) (schedule : List ι) :
    (program.serialized s schedule).filter (program.actor · |>.isNone) =
      schedule.filter (program.actor · |>.isNone) := by
  induction schedule generalizing s with
  | nil => rfl
  | cons input rest ih =>
      rw [serialized]
      by_cases starts : program.starts s input = true
      · rw [if_pos starts, List.filter_cons, List.filter_cons, ih]
      · have thread : ¬(program.actor input).isNone = true := by
          intro world
          simp [LockedProgram.starts, Option.isNone_iff_eq_none.mp world] at starts
        rw [if_neg starts, ih, List.filter_cons, if_neg thread]

section

variable {good : LockedState τ π σ → Prop} {rank : LockedState τ π σ → Nat}
  (commutes : program.Commutes good) (bounded : program.Bounded good rank)
  (bracketed : program.Bracketed) {start s settled : LockedState τ π σ} {kept : List ι} {n : Nat}
include commutes bounded bracketed

/-- A run of whole sections that a state comes to goes on with the next step, if that
starts a section or goes outside of them, and else takes it in. -/
theorem serializable_step (holds : good s) (exclusive : program.Exclusive s)
    (serial : program.SerialRun start kept settled) (settles : program.Settles n s settled)
    (input : ι) :
    ∃ settled' n', program.SerialRun start (kept ++ program.serialized s [input]) settled' ∧
      program.Settles n' (program.step s input) settled' := by
  cases actor : program.actor input with
  | none =>
      have moved := commutes.settles_world bracketed settles holds exclusive actor
      have done : program.Settles 0 (program.step settled input)
          (program.step settled input) :=
        .free (by rw [step_world actor, settles.settled_free])
      rw [serialized, if_pos (by simp [starts, actor])]
      exact ⟨_, _, serial.snoc done, moved⟩
  | some t =>
      rw [step_actor actor]
      cases held : s.holder with
      | none =>
          -- The section, or the step without the mutex, starts now.
          obtain ⟨m, -, settled', settles'⟩ := bounded.settles commutes bracketed
            (commutes.exec s t holds exclusive) (exclusive.exec bracketed t)
          rw [settles.eq_of_free held] at serial
          have whole : program.Settles m (program.step s input) settled' := by
            rwa [step_actor actor]
          rw [serialized, if_pos (by simp [starts, actor, held])]
          exact ⟨settled', m, serial.snoc whole, settles'⟩
      | some t' =>
          by_cases here : t' = t
          · subst here
            obtain ⟨m, later⟩ := settles.next held
            rw [serialized, if_neg (by simp [starts, actor, held]), serialized, List.append_nil]
            exact ⟨settled, m, serial, later⟩
          · have other : s.holder ≠ some t := by
              rw [held]
              exact fun same => here (Option.some.inj same)
            rcases exclusive.other_cases other with ⟨next, found⟩ | ⟨work, found⟩
            · have taken : s.holder ≠ none := by
                rw [held]
                exact Option.some_ne_none t'
              rw [exec_blocked found taken, serialized,
                if_neg (by simp [starts, actor, held, found]), serialized, List.append_nil]
              exact ⟨settled, n, serial, settles⟩
            · have moved := commutes.settles_outside bracketed settles holds exclusive found
              have there : program.current settled t = .outside work := by
                rw [current, settles.points_of_ne other exclusive bracketed, ← current, found]
              have done : program.Settles 0 (program.step settled input)
                  (program.step settled input) :=
                .free (by rw [step_actor actor, exec_outside there, settles.settled_free])
              have same : program.exec settled t = program.step settled input :=
                (step_actor actor).symm
              rw [same] at moved
              rw [serialized, if_pos (by simp [starts, actor, held, found, Ne.symm here])]
              exact ⟨_, n, serial.snoc done, moved⟩

/-- Every schedule of single steps, with the section that is under way run to its
end, comes to the same as a run of whole sections. -/
theorem serializable (holds : good start) (exclusive : program.Exclusive start)
    (free : start.holder = none) (schedule : List ι) :
    let s := schedule.foldl program.step start
    good s ∧ program.Exclusive s ∧ ∃ settled n,
      program.SerialRun start (program.serialized start schedule) settled ∧
        program.Settles n s settled := by
  induction schedule using List.reverseRecOn with
  | nil => exact ⟨holds, exclusive, start, 0, .nil, .free free⟩
  | append_singleton schedule input ih =>
      obtain ⟨holds, exclusive, settled, n, serial, settles⟩ := ih
      rw [List.foldl_append, List.foldl_cons, List.foldl_nil, serialized_append]
      exact ⟨commutes.step holds exclusive input, exclusive.step bracketed input,
        serializable_step commutes bounded bracketed holds exclusive serial settles input⟩

end

end LockedProgram

end CollabMarkdown.Transition
