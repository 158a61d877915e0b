import CollabMarkdown.Core.Invariant

/-!
# Replicas

A replica replays the successful commands of each payload at its own version and
increments it when the payload has an entry.  It stays equal to the server: the
commands of a window lead the replica through the same pending operations as the
server, because a logged command parses like the line it was submitted as and
the rejected ones left no trace.
-/

namespace CollabMarkdown.Core

open CollabMarkdown.CString
open CollabMarkdown.Command
open CollabMarkdown.Markdown
open CollabMarkdown.Transition

/-! ## Replaying -/

/-- Run the successful commands of a payload on a replica, collecting what they
return this time. -/
def replayEntries (replica : Store) : List EditLogEntry → List CommandResult × Store
  | [] => ([], replica)
  | entry :: rest =>
      if entry.result = .success then
        let out := Id.run (commandExecute replica replica.version .write (some entry.command))
        let later := replayEntries out.2 rest
        (out.1 :: later.1, later.2)
      else
        replayEntries replica rest

/-- Replay one payload. -/
def replayPayload (replica : Store) (entries : List EditLogEntry) : List CommandResult × Store :=
  let out := replayEntries replica entries
  (out.1, if entries = [] then out.2 else Id.run (markdownIncrementVersion out.2))

theorem replayEntries_append (replica : Store) (first second : List EditLogEntry) :
    replayEntries replica (first ++ second) =
      ((replayEntries replica first).1 ++ (replayEntries (replayEntries replica first).2 second).1,
        (replayEntries (replayEntries replica first).2 second).2) := by
  induction first generalizing replica with
  | nil => rfl
  | cons entry rest ih =>
      by_cases success : entry.result = .success <;> simp [replayEntries, success, ih]

/-- Along a run of the server, a replica replays each payload with success and
then has the text of the server and the version of the payload.  The payload lists the
log that is replayed if each of its lines can be printed at all. -/
def Follows (replica : Store) (srv : Server) : List CoreStep → Prop
  | [] => True
  | .submit user role line :: rest => Follows replica (coreStep srv (.submit user role line)).1 rest
  | .commit :: rest =>
      let next := coreStep srv .commit
      let out := replayPayload replica srv.log
      ((∀ entry ∈ srv.log, entry.Printable) →
          next.2 = .committed (some (payloadText out.2.version srv.log))) ∧
        (∀ result ∈ out.1, result = .success) ∧
        Id.run (markdownFlatten out.2) = Id.run (serverCoreFlattenDoc next.1) ∧
        out.2.version = next.1.core.currentVersion ∧
        Follows out.2 next.1 rest

/-! ## Agreement -/

/-- Two stores hold documents with the same text, version and pending
operations. -/
structure Agrees (s t : Store) : Prop where
  committedText_eq : s.committedText = t.committedText
  version_eq : s.version = t.version
  pending_eq : s.pending = t.pending

namespace Agrees

variable {s t : Store}

theorem sound (agrees : Agrees s t) (sound : t.Sound) : s.Sound := by
  rwa [Store.Sound, agrees.committedText_eq, agrees.pending_eq]

theorem enqueueAll (agrees : Agrees s t) (ops : List Op) :
    Agrees (s.enqueueAll ops) (t.enqueueAll ops) where
  committedText_eq := by simpa using agrees.committedText_eq
  version_eq := by simpa using agrees.version_eq
  pending_eq := by simpa using agrees.pending_eq

theorem commit (agrees : Agrees s t) : Agrees s.commit t.commit where
  committedText_eq := by
    simp only [Store.committedText_commit, Store.workingText]
    rw [agrees.committedText_eq, agrees.pending_eq]
  version_eq := by simpa using agrees.version_eq
  pending_eq := by simp

/-- A logged command does on one store what its line did on the other. -/
theorem execute (agrees : Agrees s t) (sound : t.Sound) {role : UserRole} {line : Text}
    {edit : Edit} {ops : List Op} (parsed : parseLine role line = .ok edit)
    (planned : edit.plan t.committedText t.pending = .ok ops) :
    Id.run (commandExecute s s.version .write (some (withoutTrailingNewline line))) =
      (.success, s.enqueueAll ops) := by
  rw [run_commandExecute_current (agrees.sound sound), planLine,
    parseLine_withoutTrailingNewline parsed, agrees.committedText_eq, agrees.pending_eq]
  simp only [planned]

end Agrees

/-- A replica at the committed text and version of a server, with nothing
pending. -/
structure Synchronised (replica : Store) (srv : Server) : Prop where
  committedText_eq : replica.committedText = srv.store.committedText
  version_eq : replica.version = srv.store.version
  pending_nil : replica.pending = []

/-- Submissions move neither the committed text nor the version. -/
theorem synchronised_submitted {replica : Store} {srv : Server} {ops : List Op}
    {entry : EditLogEntry} :
    Synchronised replica (srv.submitted ops entry) ↔ Synchronised replica srv := by
  constructor
  all_goals
    rintro ⟨committedText_eq, version_eq, pending_nil⟩
    refine ⟨?_, ?_, pending_nil⟩
  · simpa using committedText_eq
  · simpa using version_eq
  · simpa using committedText_eq
  · simpa using version_eq

/-- Every synchronised replica replays the log with success, and then agrees with
the server on the pending operations too. -/
structure Replayable (srv : Server) : Prop where
  coherent : srv.Coherent
  replays : ∀ replica, Synchronised replica srv →
    (∀ result ∈ (replayEntries replica srv.log).1, result = .success) ∧
      Agrees (replayEntries replica srv.log).2 srv.store

/-- With an empty log there is nothing to replay. -/
theorem replayable_of_log_nil {srv : Server} (coherent : srv.Coherent) (empty : srv.log = []) :
    Replayable srv where
  coherent := coherent
  replays replica synchronised := by
    rw [empty]
    refine ⟨fun _ none => absurd none List.not_mem_nil, synchronised.committedText_eq,
      synchronised.version_eq, ?_⟩
    rw [coherent.pending_logged empty]
    exact synchronised.pending_nil

namespace Replayable

variable {srv : Server}

/-- A submission that succeeds is one more command to replay. -/
theorem submit_accepted (replayable : Replayable srv) {user line : Text} {role : UserRole}
    {edit : Edit} {ops : List Op} (parsed : parseLine role line = .ok edit)
    (planned : edit.plan srv.store.committedText srv.store.pending = .ok ops) :
    Replayable (srv.submitted ops ⟨user, withoutTrailingNewline line, .success⟩) where
  coherent := replayable.coherent.submitted
    (edit.plan_inRange replayable.coherent.wellFormed.sound planned) _
  replays replica synchronised := by
    obtain ⟨succeeded, agrees⟩ :=
      replayable.replays replica (synchronised_submitted.mp synchronised)
    have executed := agrees.execute replayable.coherent.wellFormed.sound parsed planned
    rw [Server.log_submitted, replayEntries_append, Server.store_submitted]
    simp only [replayEntries, if_true, executed]
    refine ⟨?_, agrees.enqueueAll ops⟩
    intro result replayed
    rcases List.mem_append.mp replayed with earlier | last
    · exact succeeded result earlier
    · exact List.mem_singleton.mp last

/-- A rejected submission is skipped. -/
theorem submit_rejected (replayable : Replayable srv) {r : CommandResult} (rejected : r ≠ .success)
    (user command : Text) : Replayable (srv.submitted [] ⟨user, command, r⟩) where
  coherent := replayable.coherent.submitted
    (by simpa [Store.Sound] using replayable.coherent.wellFormed.sound) _
  replays replica synchronised := by
    rw [Server.log_submitted, replayEntries_append]
    simpa [replayEntries, rejected] using
      replayable.replays replica (synchronised_submitted.mp synchronised)

theorem step (replayable : Replayable srv) (step : CoreStep) :
    Replayable (coreStep srv step).1 := by
  have coherent := coreStep_coherent srv step replayable.coherent
  rcases step.cases with ⟨user, role, line, missing, rfl⟩ | ⟨user, role, line, rfl⟩ | rfl
  · rwa [coreStep_submit_null srv role missing]
  · rw [replayable.coherent.coreStep_submit, Server.plan]
    rcases planLine_cases role line srv.store.committedText srv.store.pending with
      ⟨edit, ops, parsed, planned, eq⟩ | ⟨r, ⟨rejected, -⟩, eq⟩
    · rw [eq]
      exact replayable.submit_accepted parsed planned
    · rw [eq]
      exact replayable.submit_rejected rejected user _
  · apply replayable_of_log_nil coherent
    rw [coreStep_commit]
    exact Server.log_commit srv

/-- A replica replays the payload of a commit with success and is synchronised
with the server again. -/
theorem commit (replayable : Replayable srv) {replica : Store}
    (synchronised : Synchronised replica srv) :
    (∀ result ∈ (replayPayload replica srv.log).1, result = .success) ∧
      Synchronised (replayPayload replica srv.log).2 srv.commit := by
  obtain ⟨succeeded, agrees⟩ := replayable.replays replica synchronised
  refine ⟨succeeded, ?_⟩
  unfold replayPayload
  by_cases empty : srv.log = []
  · simp only [empty, if_true, replayEntries]
    rwa [replayable.coherent.commit_of_log_nil empty]
  · simp only [if_neg empty, run_markdownIncrementVersion]
    have store_eq := (replayable.coherent.commit_of_log_ne_nil empty).1
    have committed := agrees.commit
    rw [← store_eq] at committed
    exact ⟨committed.committedText_eq, committed.version_eq, Store.pending_commit _⟩

/-- A synchronised replica follows the server. -/
theorem follows (replayable : Replayable srv) {replica : Store}
    (synchronised : Synchronised replica srv) (steps : List CoreStep) :
    Follows replica srv steps := by
  induction steps generalizing srv replica with
  | nil => trivial
  | cons first rest ih =>
      have later := replayable.step first
      rcases first.cases with ⟨user, role, line, missing, rfl⟩ | ⟨user, role, line, rfl⟩ | rfl
      · rw [Follows, coreStep_submit_null srv role missing]
        exact ih replayable synchronised
      · rw [replayable.coherent.coreStep_submit] at later
        rw [Follows, replayable.coherent.coreStep_submit]
        exact ih later (synchronised_submitted.mpr synchronised)
      · obtain ⟨succeeded, next⟩ := replayable.commit synchronised
        have version_eq : (replayPayload replica srv.log).2.version =
            srv.commit.core.currentVersion :=
          next.version_eq.trans replayable.coherent.commit.version_eq.symm
        rw [coreStep_commit] at later
        simp only [Follows, coreStep_commit, run_serverCoreFlattenDoc, version_eq]
        refine ⟨fun printable => ?_, succeeded, ?_, trivial, ih later next⟩
        · rw [(printPayload_eq_iff _ _).mpr printable]
        · rw [← next.committedText_eq]
          exact run_getCommittedText _

end Replayable

theorem replayable_reached (addr : DocAddr) (others : OtherOps addr) (steps : List CoreStep) :
    Replayable (reached addr others steps) :=
  run_invariant coreStep Replayable (fun _ step replayable => replayable.step step)
    (replayable_of_log_nil (Server.coherent_fresh addr others) rfl) steps

theorem synchronised_snapshot {srv : Server} (coherent : srv.Coherent) (addr : DocAddr)
    (others : OtherOps addr) :
    Synchronised (Store.snapshot addr others srv.store.committedText srv.core.currentVersion)
      srv where
  committedText_eq := rfl
  version_eq := coherent.version_eq
  pending_nil := Store.pending_snapshot addr others _ _

/-- Replaying the broadcasts rebuilds the document: a fresh replica follows the
server through its whole run, and a replica opened at the text and version the
server has at any moment, with edits pending or not, follows it from there. -/
theorem replaying_broadcasts_rebuilds_document (addr : DocAddr) (others : OtherOps addr)
    (earlier later : List CoreStep) (replicaAddr : DocAddr) (replicaOthers : OtherOps replicaAddr) :
    let srv := reached addr others earlier
    let replica :=
      Store.snapshot replicaAddr replicaOthers srv.store.committedText srv.core.currentVersion
    Follows (Store.fresh replicaAddr replicaOthers) (Server.fresh addr others) later ∧
      Follows replica srv later :=
  ⟨(replayable_reached addr others []).follows
      (synchronised_snapshot (Server.coherent_fresh addr others) replicaAddr replicaOthers) later,
    (replayable_reached addr others earlier).follows
      (synchronised_snapshot (coherent_reached addr others earlier) replicaAddr replicaOthers)
      later⟩

end CollabMarkdown.Core
