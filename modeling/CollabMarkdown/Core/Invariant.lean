import CollabMarkdown.Core.ServerCore

/-!
# The server core between calls

Submissions and commits as steps.  The commit decides from the log counter alone
whether to apply the pending edits, which live in another table; `Coherent`
links the two.  The `Journal` reads off the events of a run which submissions
each commit found.
-/

namespace CollabMarkdown.Core

open CollabMarkdown.CString
open CollabMarkdown.Command
open CollabMarkdown.Markdown
open CollabMarkdown.Sequence
open CollabMarkdown.Transition

/-! ## Steps and events -/

/-- The calls of a server core.  Absent arguments are NULL. -/
inductive CoreStep where
  | submit (user : Option Text) (role : UserRole) (commandLine : Option Text)
  | commit
  deriving DecidableEq, Repr

/-- What a caller sees of a call. -/
inductive CoreEvent where
  | submitted (user commandLine : Option Text) (result : CommandResult)
  | committed (payload : Option Text)
  deriving DecidableEq, Repr

/-- One call, with allocations succeeding. -/
def coreStep (srv : Server) : CoreStep → Server × CoreEvent
  | .submit user role commandLine =>
      let out := Id.run (serverCoreSubmit srv user role commandLine)
      (out.2, .submitted user commandLine out.1)
  | .commit =>
      let out := Id.run (serverCoreCommit srv)
      (out.2, .committed out.1)

/-- The submissions that each commit found, and those since the last commit.  A
call with a NULL argument submits nothing. -/
structure Journal where
  broadcast : List (List EditLogEntry)
  window : List EditLogEntry
  deriving DecidableEq, Repr

namespace Journal

/-- Before the first call. -/
def empty : Journal :=
  ⟨[], []⟩

/-- The journal after one more event. -/
def record (journal : Journal) : CoreEvent → Journal
  | .submitted (some user) (some commandLine) result =>
      { journal with
        window := journal.window ++ [⟨user, withoutTrailingNewline commandLine, result⟩] }
  | .submitted _ _ _ => journal
  | .committed _ => ⟨journal.broadcast ++ [journal.window], []⟩

/-- The journal of a run. -/
def ofEvents (events : List CoreEvent) : Journal :=
  events.foldl record empty

theorem ofEvents_concat (events : List CoreEvent) (event : CoreEvent) :
    ofEvents (events ++ [event]) = (ofEvents events).record event := by
  simp [ofEvents]

theorem record_null (journal : Journal) {user line : Option Text} (result : CommandResult)
    (missing : user = none ∨ line = none) :
    journal.record (.submitted user line result) = journal := by
  rcases missing with rfl | rfl
  · rfl
  · cases user <;> rfl

/-- The number of commits that found a submission. -/
def effectiveCommits (journal : Journal) : Nat :=
  journal.broadcast.countP (!·.isEmpty)

end Journal

/-- One commit more, if its window holds a submission. -/
def commitsAfter (commits : Nat) (window : List EditLogEntry) : Nat :=
  if window = [] then commits else commits + 1

/-! ## Coherence -/

namespace Server

/-- What links the log to the document. -/
structure Coherent (srv : Server) : Prop where
  wellFormed : srv.store.WellFormed
  version_eq : srv.core.currentVersion = srv.core.doc.currentVersion
  count_eq : srv.core.pendingCount = srv.log.length
  pending_logged : srv.log = [] → srv.store.pending = []

theorem coherent_fresh (addr : DocAddr) (others : OtherOps addr) :
    (fresh addr others).Coherent where
  wellFormed := Store.wellFormed_fresh addr others
  version_eq := rfl
  count_eq := rfl
  pending_logged _ := Store.pending_fresh addr others

@[simp]
theorem log_logged (srv : Server) (entry : EditLogEntry) :
    (srv.logged entry).log = srv.log ++ [entry] :=
  TailList.head_append _ _

/-- The server that has enqueued the operations of a submission and logged it. -/
def submitted (srv : Server) (ops : List Op) (entry : EditLogEntry) : Server :=
  (srv.withStore (srv.store.enqueueAll ops)).logged entry

@[simp]
theorem log_submitted (srv : Server) (ops : List Op) (entry : EditLogEntry) :
    (srv.submitted ops entry).log = srv.log ++ [entry] :=
  log_logged _ entry

@[simp]
theorem store_submitted (srv : Server) (ops : List Op) (entry : EditLogEntry) :
    (srv.submitted ops entry).store = srv.store.enqueueAll ops :=
  rfl

/-- Logging a submission whose operations are in range keeps a server coherent. -/
theorem Coherent.submitted {srv : Server} (coherent : srv.Coherent) {ops : List Op}
    (inRange : AllInRange srv.store.committedText (srv.store.pending ++ ops))
    (entry : EditLogEntry) : (srv.submitted ops entry).Coherent where
  wellFormed := coherent.wellFormed.enqueueAll inRange
  version_eq := coherent.version_eq.trans (Store.version_enqueueAll srv.store ops).symm
  count_eq := by
    have counted := coherent.count_eq
    rw [log_submitted, List.length_append, List.length_singleton, ← counted]
    rfl
  pending_logged logged := by simp at logged

/-- The result of a submission and the operations it enqueues. -/
def plan (srv : Server) (role : UserRole) (line : Text) : CommandResult × List Op :=
  planLine role line srv.store.committedText srv.store.pending

theorem Coherent.plan_inRange {srv : Server} (coherent : srv.Coherent) (role : UserRole)
    (line : Text) :
    AllInRange srv.store.committedText (srv.store.pending ++ (srv.plan role line).2) :=
  planLine_inRange coherent.wellFormed.sound role line

/-- A submission follows its plan and is logged with the result it returns. -/
theorem Coherent.run_submit {srv : Server} (coherent : srv.Coherent) (user : Text)
    (role : UserRole) (line : Text) :
    Id.run (serverCoreSubmit srv (some user) role (some line)) =
      ((srv.plan role line).1, srv.submitted (srv.plan role line).2
        ⟨user, withoutTrailingNewline line, (srv.plan role line).1⟩) := by
  have current : srv.core.currentVersion = srv.store.version := coherent.version_eq
  rw [run_serverCoreSubmit, current, run_commandExecute_current coherent.wellFormed.sound]
  rfl

/-! ## Commits -/

@[simp]
theorem log_commit (srv : Server) : srv.commit.log = [] := by
  unfold commit log
  split <;> rfl

/-- A commit that finds the log empty changes nothing. -/
theorem Coherent.commit_of_log_nil {srv : Server} (coherent : srv.Coherent)
    (empty : srv.log = []) : srv.commit = srv := by
  have uncounted : ¬0 < srv.core.pendingCount := by simp [coherent.count_eq, empty]
  have cleared : srv.core.pending = .empty := TailList.ext_head empty
  have zero : srv.core.pendingCount = 0 := by omega
  rw [commit, if_neg uncounted, if_neg uncounted, ← cleared, ← zero]

/-- A commit that finds a submission applies the pending edits. -/
theorem Coherent.commit_of_log_ne_nil {srv : Server} (coherent : srv.Coherent)
    (logged : srv.log ≠ []) :
    srv.commit.store = srv.store.commit ∧
      srv.commit.core.currentVersion = srv.core.currentVersion + 1 := by
  have counted : 0 < srv.core.pendingCount := by
    rw [coherent.count_eq]
    exact List.length_pos_of_ne_nil logged
  constructor
  · simp [commit, store, counted]
  · rw [coherent.version_eq, commit, if_pos counted]
    rfl

/-- Both kinds of commit leave nothing pending. -/
theorem Coherent.pending_commit {srv : Server} (coherent : srv.Coherent) :
    srv.commit.store.pending = [] := by
  by_cases empty : srv.log = []
  · rw [coherent.commit_of_log_nil empty, coherent.pending_logged empty]
  · rw [(coherent.commit_of_log_ne_nil empty).1, Store.pending_commit]

/-- Both kinds of commit renumber the working text: without a submission it is
the committed text, which is renumbered already. -/
theorem Coherent.committedText_commit {srv : Server} (coherent : srv.Coherent) :
    srv.commit.store.committedText = renumbered srv.store.workingText := by
  by_cases empty : srv.log = []
  · rw [coherent.commit_of_log_nil empty,
      Store.workingText_of_pending_nil (coherent.pending_logged empty),
      coherent.wellFormed.normalised]
  · rw [(coherent.commit_of_log_ne_nil empty).1, Store.committedText_commit]

theorem Coherent.commit {srv : Server} (coherent : srv.Coherent) : srv.commit.Coherent := by
  by_cases empty : srv.log = []
  · rwa [coherent.commit_of_log_nil empty]
  · obtain ⟨store_eq, version_eq⟩ := coherent.commit_of_log_ne_nil empty
    constructor
    · rw [store_eq]
      exact Store.WellFormed.commit srv.store
    · rw [version_eq, coherent.version_eq]
      exact (congrArg Store.version store_eq).symm
    · rw [log_commit]
      unfold Server.commit
      split <;> rfl
    · intro _
      exact coherent.pending_commit

/-- The server that has submitted one line and committed. -/
def processed (srv : Server) (user : Text) (role : UserRole) (line : Text) : Server :=
  (srv.submitted (srv.plan role line).2
    ⟨user, withoutTrailingNewline line, (srv.plan role line).1⟩).commit

section Processed

variable {srv : Server} (coherent : srv.Coherent) (user : Text) (role : UserRole) (line : Text)
include coherent

theorem Coherent.processed : (srv.processed user role line).Coherent :=
  (coherent.submitted (coherent.plan_inRange role line) _).commit

theorem Coherent.currentVersion_processed :
    (srv.processed user role line).core.currentVersion = srv.core.currentVersion + 1 := by
  have submitted := coherent.submitted (coherent.plan_inRange role line)
    ⟨user, withoutTrailingNewline line, (srv.plan role line).1⟩
  exact (submitted.commit_of_log_ne_nil (by simp)).2

theorem Coherent.committedText_processed :
    (srv.processed user role line).store.committedText =
      renumbered (spliceAll srv.store.workingText (srv.plan role line).2) := by
  have submitted := coherent.submitted (coherent.plan_inRange role line)
    ⟨user, withoutTrailingNewline line, (srv.plan role line).1⟩
  rw [Server.processed, submitted.committedText_commit, store_submitted,
    Store.workingText_enqueueAll]

/-- With an empty log, the commit right after a submission broadcasts that entry. -/
theorem Coherent.run_commit_submitted (settled : srv.log = [])
    (printable : EditLogEntry.Printable
      ⟨user, withoutTrailingNewline line, (srv.plan role line).1⟩) :
    Id.run (serverCoreCommit (srv.submitted (srv.plan role line).2
        ⟨user, withoutTrailingNewline line, (srv.plan role line).1⟩)) =
      (some (payloadText (srv.core.currentVersion + 1)
        [⟨user, withoutTrailingNewline line, (srv.plan role line).1⟩]),
        srv.processed user role line) := by
  have whole := (printPayload_eq_iff [⟨user, withoutTrailingNewline line,
    (srv.plan role line).1⟩] (srv.core.currentVersion + 1)).mpr (by simpa using printable)
  rw [run_serverCoreCommit, log_submitted, settled, List.nil_append, ← whole,
    ← coherent.currentVersion_processed user role line]
  rfl

end Processed

end Server

/-! ## Runs -/

/-- A call with a NULL argument does nothing but report it. -/
theorem coreStep_submit_null (srv : Server) {user line : Option Text} (role : UserRole)
    (missing : user = none ∨ line = none) :
    coreStep srv (.submit user role line) = (srv, .submitted user line .rejectInvalidCommand) := by
  rw [coreStep, run_serverCoreSubmit_null srv role missing]

@[simp]
theorem coreStep_commit (srv : Server) :
    coreStep srv .commit =
      (srv.commit, .committed (printPayload srv.log srv.commit.core.currentVersion)) := by
  rw [coreStep, run_serverCoreCommit]

theorem Server.Coherent.coreStep_submit {srv : Server} (coherent : srv.Coherent) (user : Text)
    (role : UserRole) (line : Text) :
    coreStep srv (.submit (some user) role (some line)) =
      (srv.submitted (srv.plan role line).2
          ⟨user, withoutTrailingNewline line, (srv.plan role line).1⟩,
        .submitted (some user) (some line) (srv.plan role line).1) := by
  rw [coreStep, coherent.run_submit]

/-- A step is a call with a NULL argument, a submission or a commit. -/
theorem CoreStep.cases (step : CoreStep) :
    (∃ user role line, (user = none ∨ line = none) ∧ step = .submit user role line) ∨
      (∃ user role line, step = .submit (some user) role (some line)) ∨ step = .commit := by
  match step with
  | .submit none role line => exact .inl ⟨none, role, line, .inl rfl, rfl⟩
  | .submit (some user) role none => exact .inl ⟨some user, role, none, .inr rfl, rfl⟩
  | .submit (some user) role (some line) => exact .inr (.inl ⟨user, role, line, rfl⟩)
  | .commit => exact .inr (.inr rfl)

theorem coreStep_coherent (srv : Server) (step : CoreStep) (coherent : srv.Coherent) :
    (coreStep srv step).1.Coherent := by
  rcases step.cases with ⟨user, role, line, missing, rfl⟩ | ⟨user, role, line, rfl⟩ | rfl
  · rwa [coreStep_submit_null srv role missing]
  · rw [coherent.coreStep_submit]
    exact coherent.submitted (coherent.plan_inRange role line) _
  · rw [coreStep_commit]
    exact coherent.commit

/-- The server a run from `server_core_init` reaches. -/
def reached (addr : DocAddr) (others : OtherOps addr) (steps : List CoreStep) : Server :=
  (run coreStep (Server.fresh addr others) steps).1

/-- The events of that run. -/
def events (addr : DocAddr) (others : OtherOps addr) (steps : List CoreStep) : List CoreEvent :=
  (run coreStep (Server.fresh addr others) steps).2

theorem events_concat (addr : DocAddr) (others : OtherOps addr) (steps : List CoreStep)
    (step : CoreStep) :
    events addr others (steps ++ [step]) =
      events addr others steps ++ [(coreStep (reached addr others steps) step).2] := by
  rw [events, run_append]
  rfl

theorem coherent_reached (addr : DocAddr) (others : OtherOps addr) (steps : List CoreStep) :
    (reached addr others steps).Coherent :=
  run_invariant coreStep Server.Coherent coreStep_coherent (Server.coherent_fresh addr others) steps

/-- The log holds the submissions since the last commit, and the version counts
the commits that found one. -/
structure Recorded (journal : Journal) (srv : Server) : Prop where
  coherent : srv.Coherent
  log_eq : srv.log = journal.window
  version_eq : srv.core.currentVersion = UInt64.ofNat journal.effectiveCommits

theorem Journal.effectiveCommits_committed (journal : Journal) (payload : Option Text) :
    (journal.record (.committed payload)).effectiveCommits =
      commitsAfter journal.effectiveCommits journal.window := by
  by_cases empty : journal.window = [] <;>
    simp [record, effectiveCommits, commitsAfter, List.countP_append, empty]

theorem Recorded.commit {journal : Journal} {srv : Server} (recorded : Recorded journal srv)
    (payload : Option Text) : Recorded (journal.record (.committed payload)) srv.commit where
  coherent := recorded.coherent.commit
  log_eq := Server.log_commit srv
  version_eq := by
    rw [Journal.effectiveCommits_committed, ← recorded.log_eq, commitsAfter]
    by_cases empty : srv.log = []
    · rw [recorded.coherent.commit_of_log_nil empty, recorded.version_eq, if_pos empty]
    · rw [(recorded.coherent.commit_of_log_ne_nil empty).2, recorded.version_eq, if_neg empty]
      simp

theorem Recorded.step {journal : Journal} {srv : Server} (recorded : Recorded journal srv)
    (step : CoreStep) :
    Recorded (journal.record (coreStep srv step).2) (coreStep srv step).1 := by
  have coherent := coreStep_coherent srv step recorded.coherent
  rcases step.cases with ⟨user, role, line, missing, rfl⟩ | ⟨user, role, line, rfl⟩ | rfl
  · rwa [coreStep_submit_null srv role missing, Journal.record_null journal _ missing]
  · rw [recorded.coherent.coreStep_submit] at coherent ⊢
    refine ⟨coherent, ?_, recorded.version_eq⟩
    rw [Server.log_submitted, recorded.log_eq, Journal.record]
  · rw [coreStep_commit]
    exact recorded.commit _

theorem recorded_reached (addr : DocAddr) (others : OtherOps addr) (steps : List CoreStep) :
    Recorded (Journal.ofEvents (events addr others steps)) (reached addr others steps) := by
  apply run_history coreStep (fun history srv => Recorded (Journal.ofEvents history) srv)
  · intro history srv step recorded
    rw [Journal.ofEvents_concat]
    exact recorded.step step
  · exact ⟨Server.coherent_fresh addr others, rfl, rfl⟩

@[simp]
theorem run_serverCoreFlattenDoc (srv : Server) :
    Id.run (serverCoreFlattenDoc srv) = some srv.store.committedText :=
  run_getCommittedText srv.store

/-- A submission leaves the committed text alone. -/
theorem committedText_submit {srv : Server} (coherent : srv.Coherent) (user : Option Text)
    (role : UserRole) (line : Option Text) :
    (coreStep srv (.submit user role line)).1.store.committedText = srv.store.committedText := by
  match user, line with
  | none, _ => rw [coreStep_submit_null srv role (.inl rfl)]
  | some _, none => rw [coreStep_submit_null srv role (.inr rfl)]
  | some user, some line =>
      rw [coherent.coreStep_submit, Server.store_submitted, Store.committedText_enqueueAll]

/-- The invariant of a server core, in every state a run reaches. -/
theorem serverCore_invariant (addr : DocAddr) (others : OtherOps addr) (steps : List CoreStep) :
    let srv := reached addr others steps
    let journal := Journal.ofEvents (events addr others steps)
    let after := (coreStep srv .commit).1
    (srv.core.currentVersion = srv.core.doc.currentVersion ∧
      srv.core.currentVersion = UInt64.ofNat journal.effectiveCommits) ∧
    (srv.core.pendingCount = srv.log.length ∧ srv.core.pending.last = srv.log.getLast? ∧
      (srv.core.pending.tail = none ↔ srv.log = [])) ∧
    (srv.store.pending ≠ [] → 0 < srv.core.pendingCount) ∧
    (∀ user role line, Id.run (serverCoreFlattenDoc (coreStep srv (.submit user role line)).1) =
      Id.run (serverCoreFlattenDoc srv)) ∧
    (after.log = [] ∧ after.store.pending = [] ∧
      Id.run (serverCoreFlattenDoc after) = some after.store.workingText ∧
      coreStep after .commit =
        (after, .committed (some (payloadText after.core.currentVersion [])))) := by
  intro srv journal after
  obtain ⟨coherent, -, version_eq⟩ := recorded_reached addr others steps
  have later : after.Coherent := coreStep_coherent srv .commit coherent
  have committed : after = srv.commit := congrArg Prod.fst (coreStep_commit srv)
  have empty : after.log = [] := committed ▸ Server.log_commit srv
  have none : after.store.pending = [] := committed ▸ coherent.pending_commit
  refine ⟨⟨coherent.version_eq, version_eq⟩,
    ⟨coherent.count_eq, TailList.last_eq_getLast? _, TailList.tail_eq_none_iff _⟩,
    ?_, ?_, empty, none, ?_, ?_⟩
  · intro pending
    rw [coherent.count_eq]
    exact List.length_pos_of_ne_nil fun empty => pending (coherent.pending_logged empty)
  · intro user role line
    rw [run_serverCoreFlattenDoc, run_serverCoreFlattenDoc, committedText_submit coherent]
  · rw [run_serverCoreFlattenDoc, Store.workingText_of_pending_nil none]
  · have whole := (printPayload_eq_iff [] after.core.currentVersion).mpr (by simp)
    rw [coreStep_commit, later.commit_of_log_nil empty, empty, whole]

end CollabMarkdown.Core
