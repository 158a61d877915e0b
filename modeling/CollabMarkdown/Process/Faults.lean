import CollabMarkdown.CString.Requests
import CollabMarkdown.Process.Registry

/-!
# Processes whose environment fails

The effects of the server process under a pattern of failures: streams that no
longer take writes or can no longer be flushed, and allocations that are refused.
A write or a flush never closes a stream, whatever fails.
-/

namespace CollabMarkdown.Process

open CollabMarkdown.CString
open CollabMarkdown.Command

/-! ## Failing streams -/

/-- The streams whose writes succeed, and those whose flushes do. -/
structure StreamFaults where
  writes : StreamId → Bool
  flushes : StreamId → Bool

/-- A stream that takes a text and passes it on. -/
def StreamFaults.accepts (faults : StreamFaults) (out : StreamId) : Bool :=
  faults.writes out && faults.flushes out

/-- A process under a pattern of failing streams. -/
instance {m : Type → Type} [Monad m] : MonadStream (ReaderT StreamFaults m) where
  writes out _ := fun faults => pure (faults.writes out)
  flushes out := fun faults => pure (faults.flushes out)

@[simp]
theorem run_writes {m : Type → Type} [Monad m] (faults : StreamFaults) (out : StreamId)
    (text : Text) :
    (MonadStream.writes out text : ReaderT StreamFaults m Bool).run faults =
      pure (faults.writes out) :=
  rfl

@[simp]
theorem run_flushes {m : Type → Type} [Monad m] (faults : StreamFaults) (out : StreamId) :
    (MonadStream.flushes out : ReaderT StreamFaults m Bool).run faults =
      pure (faults.flushes out) :=
  rfl

/-- An allocation does not depend on the streams. -/
instance {m : Type → Type} [MonadMalloc m] : MonadMalloc (ReaderT StreamFaults m) where
  malloc size := fun _ => malloc size

/-! ## Failing allocations -/

/-- A process whose streams and allocations fail in given patterns. -/
abbrev FaultyProcess := ReaderT StreamFaults Faulty

/-- The result of a program, and the answers of the allocator it has not used. -/
def outcome {α : Type} (program : FaultyProcess α) (faults : StreamFaults) (answers : Answers) :
    α × Answers :=
  Faulty.run (program.run faults) answers

section

variable {α β : Type} (faults : StreamFaults) (answers : Answers)

@[simp]
theorem outcome_pure (a : α) : outcome (pure a) faults answers = (a, answers) :=
  rfl

@[simp]
theorem outcome_bind (program : FaultyProcess α) (next : α → FaultyProcess β) :
    outcome (program >>= next) faults answers =
      outcome (next (outcome program faults answers).1) faults
        (outcome program faults answers).2 :=
  rfl

@[simp]
theorem outcome_writes (out : StreamId) (text : Text) :
    outcome (MonadStream.writes out text) faults answers = (faults.writes out, answers) :=
  rfl

@[simp]
theorem outcome_flushes (out : StreamId) :
    outcome (MonadStream.flushes out) faults answers = (faults.flushes out, answers) :=
  rfl

@[simp]
theorem outcome_malloc (size : Nat) :
    outcome (malloc size) faults answers =
      (decide (Faulty.Spares answers 1), answers.drop 1) := by
  rcases Faulty.run_malloc size answers with ⟨spared, granted⟩ | ⟨fails, refused⟩
  · rw [decide_eq_true spared]
    exact granted
  · rw [decide_eq_false (fails.not_spares Nat.one_pos)]
    exact refused

/-- A copy asks for one block. -/
@[simp]
theorem outcome_strdup (text : Text) :
    outcome (strdup (some text)) faults answers =
      (if Faulty.Spares answers 1 then some text else none, answers.drop 1) := by
  by_cases spared : Faulty.Spares answers 1 <;> simp [strdup, spared]

end

/-! ## Closing -/

/-- Each stream was closed as often as before. -/
def SameCloses (before after : Streams) : Prop :=
  ∀ out, (after out).closes = (before out).closes

namespace SameCloses

variable {first second third : Streams}

theorem refl (streams : Streams) : SameCloses streams streams :=
  fun _ => rfl

theorem trans (earlier : SameCloses first second) (later : SameCloses second third) :
    SameCloses first third :=
  fun out => (later out).trans (earlier out)

theorem update {streams : Streams} {out : StreamId} {stream : OutStream}
    (same : stream.closes = (streams out).closes) :
    SameCloses streams (Function.update streams out stream) := by
  intro other
  by_cases here : other = out
  · subst here
    simpa using same
  · simp [here]

end SameCloses

@[simp]
theorem closes_fclose_self (streams : Streams) (out : StreamId) :
    (fclose streams out out).closes = (streams out).closes + 1 := by
  simp [fclose]

theorem fclose_of_ne (streams : Streams) {out other : StreamId} (apart : other ≠ out) :
    fclose streams out other = streams other :=
  Function.update_of_ne apart ..

/-- A program that asks for no memory and closes none of the streams it is given; the
flag it returns is as stated. -/
def Quiet (streams : Streams) (program : FaultyProcess (Bool × Streams)) (flag : Bool → Prop) :
    Prop :=
  ∀ faults answers, ∃ ok streams', flag ok ∧ SameCloses streams streams' ∧
    outcome program faults answers = ((ok, streams'), answers)

namespace Quiet

variable {flag : Bool → Prop} {streams : Streams}

theorem pure {ok : Bool} (holds : flag ok) : Quiet streams (Pure.pure (ok, streams)) flag :=
  fun _ _ => ⟨ok, streams, holds, SameCloses.refl streams, rfl⟩

theorem bind {program : FaultyProcess (Bool × Streams)} {first : Bool → Prop}
    {next : Bool × Streams → FaultyProcess (Bool × Streams)} (quiet : Quiet streams program first)
    (later : ∀ ok streams', first ok → Quiet streams' (next (ok, streams')) flag) :
    Quiet streams (program >>= next) flag := by
  intro faults answers
  obtain ⟨ok, middle, holds, same, ran⟩ := quiet faults answers
  obtain ⟨ok', last, holds', same', ran'⟩ := later ok middle holds faults answers
  refine ⟨ok', last, holds', same.trans same', ?_⟩
  rw [outcome_bind, ran, ran']

theorem outcome_eq {program : FaultyProcess (Bool × Streams)} {ok : Bool}
    (quiet : Quiet streams program (· = ok)) (faults : StreamFaults) (answers : Answers) :
    ∃ streams', SameCloses streams streams' ∧
      outcome program faults answers = ((ok, streams'), answers) := by
  obtain ⟨_, streams', rfl, same, ran⟩ := quiet faults answers
  exact ⟨streams', same, ran⟩

end Quiet

theorem quiet_fputs (streams : Streams) (out : StreamId) (text : Text) :
    Quiet streams (fputs streams out text) fun _ => True := by
  intro faults answers
  cases written : faults.writes out with
  | false => exact ⟨false, streams, trivial, SameCloses.refl streams, by simp [fputs, written]⟩
  | true =>
      exact ⟨true, Function.update streams out ((streams out).buffer text), trivial,
        SameCloses.update rfl, by simp [fputs, written]⟩

theorem quiet_fflush (streams : Streams) (out : StreamId) :
    Quiet streams (fflush streams out) fun _ => True := by
  intro faults answers
  cases flushed : faults.flushes out with
  | false =>
      exact ⟨false, Function.update streams out (streams out).discard, trivial,
        SameCloses.update rfl, by simp [fflush, flushed]⟩
  | true =>
      exact ⟨true, Function.update streams out (streams out).drain, trivial,
        SameCloses.update rfl, by simp [fflush, flushed]⟩

/-- A broadcast closes nothing, wherever it stops. -/
theorem quiet_broadcastTo (payload : Text) (conns : List ClientConn) (streams : Streams) :
    Quiet streams (broadcastTo payload conns streams) fun _ => True := by
  induction conns generalizing streams with
  | nil => exact Quiet.pure trivial
  | cons cur rest ih =>
      apply (quiet_fputs streams cur.outStream payload).bind
      intro put streams _
      cases put with
      | false => exact Quiet.pure trivial
      | true =>
          apply (quiet_fflush streams cur.outStream).bind
          intro flushed streams _
          cases flushed with
          | false => exact Quiet.pure trivial
          | true => exact ih streams

end CollabMarkdown.Process
