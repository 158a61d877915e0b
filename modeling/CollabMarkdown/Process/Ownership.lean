import CollabMarkdown.Process.Delivery
import CollabMarkdown.Process.Faults
import CollabMarkdown.Process.RegistryMap

/-!
# Who closes a stream

A registration hands its stream to the registry when it succeeds, and should leave it
to the caller when it fails.  The cleanup of a half-built record closes what it
finds there, though, so a registration that fails on a copy has closed the stream
already when the thread closes it.
-/

namespace CollabMarkdown.Process

open CollabMarkdown.CString
open CollabMarkdown.Command
open CollabMarkdown.Core

/-! ## One registration -/

/-- The arguments of `client_registry_add`; absent ones are NULL. -/
structure Registration where
  target : RegistryArg
  pid : Pid
  username : Option Text
  role : UserRole
  fifoC2sPath : Option Text
  fifoS2cPath : Option Text
  outStream : Option StreamId
  deriving DecidableEq, Repr

namespace Registration

variable {m : Type → Type} [Monad m] [MonadMalloc m] [MonadStream m]

/-- The call.  A NULL registry is refused at once. -/
def add (args : Registration) (registry : ClientRegistry) (streams : Streams) :
    m (Bool × ClientRegistry × Streams) :=
  match args.target with
  | .null => return (false, registry, streams)
  | .registry => clientRegistryAdd registry streams args.pid args.username args.role
      args.fifoC2sPath args.fifoS2cPath args.outStream

/-- The record of a new client is allocated, but one of its three copies is not. -/
def CopyFails (args : Registration) (registry : ClientRegistry) (answers : Answers) : Prop :=
  (args.target = .registry ∧ args.username ≠ none ∧ args.fifoC2sPath ≠ none ∧
    args.fifoS2cPath ≠ none ∧ args.outStream ≠ none) ∧
  clientRegistryFind registry args.pid = none ∧
  Faulty.Spares answers 1 ∧ ¬Faulty.Spares (answers.drop 1) 3

instance (args : Registration) (registry : ClientRegistry) (answers : Answers) :
    Decidable (args.CopyFails registry answers) :=
  inferInstanceAs (Decidable (_ ∧ _ ∧ _ ∧ _))

end Registration

/-- A failed registration leaves the registry alone and closes nothing. -/
def KeepsStream (registry : ClientRegistry) (streams : Streams)
    (result : Bool × ClientRegistry × Streams) : Prop :=
  result.1 = false → result.2.1 = registry ∧ SameCloses streams result.2.2

section

variable (faults : StreamFaults) (answers : Answers) (registry : ClientRegistry)
  (streams : Streams) (pid : Pid) (username : Text) (role : UserRole)
  (fifoC2sPath fifoS2cPath : Text) (outStream : StreamId)

/-- What a registration with all its arguments does: it is refused, fails before or
after the stream was stored, or succeeds. -/
theorem outcome_clientRegistryAdd :
    let result := (outcome (clientRegistryAdd registry streams pid (some username) role
      (some fifoC2sPath) (some fifoS2cPath) (some outStream)) faults answers).1
    (clientRegistryFind registry pid ≠ none ∧ result = (false, registry, streams)) ∨
    (clientRegistryFind registry pid = none ∧
      ((¬Faulty.Spares answers 1 ∧ result = (false, registry, streams)) ∨
      (Faulty.Spares answers 1 ∧ ¬Faulty.Spares (answers.drop 1) 3 ∧
        result = (false, registry, fclose streams outStream)) ∨
      (Faulty.Spares answers 1 ∧ Faulty.Spares (answers.drop 1) 3 ∧
        result = (true, ⟨⟨pid, username, role, fifoC2sPath, fifoS2cPath, outStream⟩ ::
          registry.head, registry.count + 1⟩, streams)))) := by
  intro result
  cases found : clientRegistryFind registry pid with
  | some conn => exact .inl ⟨Option.some_ne_none conn, by simp [result, clientRegistryAdd, found]⟩
  | none =>
      right
      refine ⟨rfl, ?_⟩
      by_cases granted : Faulty.Spares answers 1
      · right
        have three : Faulty.Spares (answers.drop 1) 3 ↔ Faulty.Spares (answers.drop 1) 1 ∧
            Faulty.Spares (answers.drop 2) 1 ∧ Faulty.Spares (answers.drop 3) 1 := by
          rw [Faulty.spares_add (n := 1) (k := 2), Faulty.spares_add (n := 1) (k := 1),
            List.drop_drop, List.drop_drop]
        rw [three]
        simp only [result, clientRegistryAdd, found, Option.isSome_none, Bool.false_eq_true,
          if_false, outcome_bind, outcome_malloc, decide_eq_true_eq, granted, if_true,
          outcome_strdup, List.drop_drop, Nat.reduceAdd]
        by_cases first : Faulty.Spares (answers.drop 1) 1 <;>
          by_cases second : Faulty.Spares (answers.drop 2) 1 <;>
          by_cases third : Faulty.Spares (answers.drop 3) 1 <;>
          simp only [first, second, third, if_true, if_false, outcome_pure, and_true, and_false,
            not_true, not_false_eq_true, false_and, or_false, false_or, and_self]
      · left
        exact ⟨granted, by simp [result, clientRegistryAdd, found, granted]⟩

end

theorem not_sameCloses_fclose (streams : Streams) (out : StreamId) :
    ¬SameCloses streams (fclose streams out) := by
  intro same
  have once := same out
  rw [closes_fclose_self] at once
  exact absurd once (Nat.succ_ne_self _)

/-- A failed registration keeps its hands off the stream, except when a copy fails. -/
theorem Registration.keepsStream_iff (args : Registration) (registry : ClientRegistry)
    (streams : Streams) (faults : StreamFaults) (answers : Answers) :
    KeepsStream registry streams (outcome (args.add registry streams) faults answers).1 ↔
      ¬args.CopyFails registry answers := by
  have untouched : KeepsStream registry streams (false, registry, streams) :=
    fun _ => ⟨rfl, SameCloses.refl streams⟩
  match args with
  | ⟨.null, _, _, _, _, _, _⟩ =>
      exact iff_of_true untouched fun fails => RegistryArg.noConfusion fails.1.1
  | ⟨.registry, _, none, _, _, _, _⟩ =>
      exact iff_of_true untouched fun fails => fails.1.2.1 rfl
  | ⟨.registry, _, some _, _, none, _, _⟩ =>
      exact iff_of_true untouched fun fails => fails.1.2.2.1 rfl
  | ⟨.registry, _, some _, _, some _, none, _⟩ =>
      exact iff_of_true untouched fun fails => fails.1.2.2.2.1 rfl
  | ⟨.registry, _, some _, _, some _, some _, none⟩ =>
      exact iff_of_true untouched fun fails => fails.1.2.2.2.2 rfl
  | ⟨.registry, pid, some username, role, some fifoC2sPath, some fifoS2cPath, some outStream⟩ =>
      rcases outcome_clientRegistryAdd faults answers registry streams pid username role
          fifoC2sPath fifoS2cPath outStream with
        ⟨present, result⟩ | ⟨absent, ⟨refused, result⟩ | ⟨granted, lost, result⟩ |
          ⟨granted, copied, result⟩⟩
      · rw [Registration.add, result]
        exact iff_of_true untouched fun fails => present fails.2.1
      · rw [Registration.add, result]
        exact iff_of_true untouched fun fails => refused fails.2.2.1
      · rw [Registration.add, result]
        apply iff_of_false
        · intro keeps
          exact not_sameCloses_fclose streams outStream (keeps rfl).2
        · intro spared
          exact spared ⟨by simp, absent, granted, lost⟩
      · rw [Registration.add, result]
        exact iff_of_true (fun failed => Bool.noConfusion failed) fun fails => fails.2.2.2 copied

/-! ## The sections -/

/-- Sending the document asks for one block and closes nothing. -/
theorem outcome_sendInitialDocument (faults : StreamFaults) (answers : Answers)
    (streams : Streams) (out : StreamId) (role : UserRole) (srv : Server) :
    ∃ streams', SameCloses streams streams' ∧
      outcome (sendInitialDocument streams out role srv) faults answers =
        ((decide (Faulty.Spares answers 1), streams'), answers.drop 1) := by
  have flattened : outcome (serverCoreFlattenDoc srv) faults answers =
      (if Faulty.Spares answers 1 then some srv.store.committedText else none, answers.drop 1) :=
    outcome_strdup faults answers _
  rw [sendInitialDocument, outcome_bind, flattened]
  by_cases spared : Faulty.Spares answers 1
  · simp only [if_pos spared, decide_eq_true spared]
    apply Quiet.outcome_eq
    apply (quiet_fputs _ _ _).bind
    intro _ streams _
    apply (quiet_fputs _ _ _).bind
    intro _ streams _
    apply (quiet_fputs _ _ _).bind
    intro _ streams _
    have flushed (streams : Streams) :
        Quiet streams (fflush streams out >>= fun result => pure (true, result.2)) (· = true) :=
      (quiet_fflush streams out).bind fun _ _ _ => Quiet.pure rfl
    split
    · exact (quiet_fputs _ _ _).bind fun _ streams _ => flushed streams
    · exact flushed streams
  · exact ⟨streams, SameCloses.refl streams, by simp [spared]⟩

section

variable (clients : ThreadId → ClientInfo) (sys : System) (t : ThreadId) (faults : StreamFaults)
  (answers : Answers)

/-- The section that connects a client: the thread is refused and closes its stream,
closes it once more after a copy failed, or is served. -/
theorem outcome_connectSection :
    ∃ streams, SameCloses sys.streams streams ∧
      let result := (outcome (connectSection clients sys t) faults answers).1.1
      let absent := clientRegistryFind sys.registry (clients t).pid = none
      (result = { sys with streams := fclose streams t }.setPhase t .finished ∧
          ¬(absent ∧ Faulty.Spares answers 2)) ∨
        (result =
            { sys with streams := fclose (fclose streams t) t }.setPhase t .finished ∧
          absent ∧ Faulty.Spares answers 2 ∧ ¬Faulty.Spares (answers.drop 2) 3) ∨
        (result = { sys.join (clients t) t with streams }.setPhase t .serving ∧
          absent ∧ Faulty.Spares (answers.drop 2) 3) := by
  obtain ⟨streams, same, sent⟩ :=
    outcome_sendInitialDocument faults answers sys.streams t (clients t).role sys.server
  refine ⟨streams, same, ?_⟩
  have two : Faulty.Spares answers 2 ↔ Faulty.Spares answers 1 ∧ Faulty.Spares (answers.drop 1) 1 :=
    Faulty.spares_add (n := 1) (k := 1)
  intro result absent
  by_cases spared : Faulty.Spares answers 1
  · rcases outcome_clientRegistryAdd faults (answers.drop 1) sys.registry streams (clients t).pid
        (clients t).username.val (clients t).role (buildFifoPaths (clients t).pid).1
        (buildFifoPaths (clients t).pid).2 t with
      ⟨present, added⟩ | ⟨missing, ⟨refused, added⟩ | ⟨granted, lost, added⟩ |
        ⟨granted, copied, added⟩⟩
    · left
      constructor
      · simp [result, connectSection, sent, spared, added, -List.drop_one]
      · exact fun both => present both.1
    · left
      constructor
      · simp [result, connectSection, sent, spared, added, -List.drop_one]
      · exact fun both => refused (two.mp both.2).2
    · right; left
      rw [List.drop_drop] at lost
      refine ⟨?_, missing, two.mpr ⟨spared, granted⟩, lost⟩
      simp [result, connectSection, sent, spared, added, -List.drop_one]
    · right; right
      rw [List.drop_drop] at copied
      refine ⟨?_, missing, copied⟩
      simp [result, connectSection, sent, spared, added, System.join,
        -List.drop_one]
  · left
    constructor
    · simp [result, connectSection, sent, spared]
    · exact fun both => spared (two.mp both.2).1

/-- The section for a line changes the server, and closes nothing. -/
theorem outcome_executeSection (line : Text) :
    ∃ server streams, SameCloses sys.streams streams ∧
      (outcome (executeSection clients sys t line) faults answers).1.1 =
        { sys with server, streams }.setPhase t .serving := by
  simp only [executeSection, outcome_bind]
  split
  · exact ⟨_, sys.streams, SameCloses.refl _, rfl⟩
  · obtain ⟨_, streams, -, same, ran⟩ := quiet_broadcastTo _ sys.registry.head sys.streams faults _
    rw [outcome_bind, clientRegistryBroadcast, ran]
    exact ⟨_, streams, same, rfl⟩

end

end CollabMarkdown.Process
