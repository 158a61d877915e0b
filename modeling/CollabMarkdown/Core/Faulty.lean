import CollabMarkdown.Core.Invariant
import CollabMarkdown.Markdown.Faulty

/-!
# The server core without memory

Submissions and commits of a server whose allocator fails in a given pattern.  A
submission stops at the request that fails and keeps what it linked by then; a
commit goes on after a failed increment.  `Server.Intact` is the part of
coherence that survives all of this.
-/

namespace CollabMarkdown.Core

open CollabMarkdown.CString
open CollabMarkdown.Command
open CollabMarkdown.Markdown
open CollabMarkdown.Sequence
open CollabMarkdown.Transition

/-! ## Command lines -/

/-- What a command line asks for and links when nothing fails. -/
def lineItems (s : Store) (role : UserRole) (line : Text) : List TraceItem :=
  if validateRawCommandLine line then
    .request ((withoutTrailingNewline line).length + 1) ::
      match parseLine role line with
      | .error _ => []
      | .ok e => (e.trace s s.version).items
  else
    []

theorem linksOf_lineItems (s : Store) (role : UserRole) (line : Text) :
    linksOf (lineItems s role line) = (planLine role line s.committedText s.pending).2 := by
  unfold lineItems planLine
  by_cases valid : validateRawCommandLine line
  · rw [if_pos valid, linksOf_request]
    cases parseLine role line with
    | error r => rfl
    | ok e =>
        rcases e.trace_cases s with ⟨ops, planned, links, -⟩ | ⟨r, planned, links, -⟩
        · simp only [planned]
          exact links
        · simp only [planned]
          exact links
  · have rejected : parseLine role line = .error .rejectInvalidCommand := by
      simp [parseLine, valid]
    simp [valid, rejected, linksOf]

/-- A line asks for a copy, and then makes the call it stands for. -/
theorem commandExecute_eq {m : Type → Type} [Monad m] [MonadMalloc m] [LawfulMonad m] (s : Store)
    (version : UInt64) (role : UserRole) {line : Text} (valid : validateRawCommandLine line) :
    (commandExecute s version role (some line) : m (CommandResult × Store)) = do
      if ← malloc ((withoutTrailingNewline line).length + 1) then
        match parseLine role line with
        | .error r => return (r, s)
        | .ok edit =>
            let (result, s) ← edit.run s version
            return (mapMarkdownResult result, s)
      else
        return (.rejectInvalidCommand, s) := by
  unfold commandExecute parseLine
  simp only [valid, Bool.not_true, Bool.false_eq_true, if_false, copyWithoutTrailingNewline,
    bind_assoc]
  apply bind_bool_congr
  · simp only [if_true, pure_bind]
    cases strtokR space (withoutTrailingNewline line) with
    | mk cmd save =>
        cases cmd with
        | none => rfl
        | some cmd =>
            by_cases unauthorised : isWriteCommand cmd = true ∧ role ≠ .write
            · simp only [if_pos unauthorised]
            · simp only [if_neg unauthorised]
              cases parseEdit cmd save <;> rfl
  · simp

/-- A line follows its plan, or stops at the first request that fails. -/
theorem commandExecute_faulty {s : Store} (sound : s.Sound) (role : UserRole) (line : Text)
    (answers : Answers) :
    (Faulty.Spares answers (requestCount (lineItems s role line)) ∧
      Faulty.run (commandExecute s s.version role (some line)) answers =
        (((planLine role line s.committedText s.pending).1,
            s.enqueueAll (planLine role line s.committedText s.pending).2),
          answers.drop (requestCount (lineItems s role line)))) ∨
    ∃ made size rest r, lineItems s role line = made ++ .request size :: rest ∧
      Faulty.FailsAt answers (requestCount made) ∧ r ≠ .success ∧
      Faulty.run (commandExecute s s.version role (some line)) answers =
        ((r, s.enqueueAll (linksOf made)), answers.drop (requestCount made + 1)) := by
  by_cases valid : validateRawCommandLine line
  · rw [commandExecute_eq s s.version role valid, lineItems, if_pos valid, planLine,
      Faulty.run_bind]
    rcases Faulty.run_malloc ((withoutTrailingNewline line).length + 1) answers with
      ⟨spared, granted⟩ | ⟨fails, refused⟩
    · rw [granted, if_pos rfl]
      cases parsed : parseLine role line with
      | error r => exact .inl ⟨spared, rfl⟩
      | ok e =>
          simp only [e.run_eq_trace sound]
          rcases (e.trace s s.version).run_faulty s (answers.drop 1) with
            ⟨later, all⟩ | ⟨made, size, rest, split, fails, stops⟩
          · left
            constructor
            · exact Faulty.spares_add.mpr ⟨spared, later⟩
            · have links : linksOf (e.trace s s.version).items = e.links s s.version := rfl
              rw [Faulty.run_bind, all, requestCount, ← List.drop_drop, links]
              rcases e.trace_cases s with ⟨ops, planned, linked, result⟩ |
                ⟨r, planned, linked, result⟩
              · rw [planned, linked, result]
                rfl
              · rw [planned, linked, result]
                rfl
          · right
            refine ⟨_ :: made, size, rest, .rejectInvalidPosition, congrArg _ split,
              Faulty.failsAt_add.mpr ⟨spared, fails⟩, by decide, ?_⟩
            rw [Faulty.run_bind, stops, requestCount, Nat.add_assoc, List.drop_drop]
            rfl
    · right
      rw [refused]
      exact ⟨[], _, _, .rejectInvalidCommand, rfl, fails, by decide, rfl⟩
  · have rejected : parseLine role line = .error .rejectInvalidCommand := by
      simp [parseLine, valid]
    have none : lineItems s role line = [] := if_neg valid
    left
    rw [none, planLine, rejected]
    constructor
    · exact Faulty.spares_zero answers
    · simp [commandExecute, valid, requestCount]

/-! ## Servers -/

namespace Server

/-- What holds of a server whatever its allocator answered: coherence, except that
edits may be pending that the log does not count. -/
structure Intact (srv : Server) : Prop where
  wellFormed : srv.store.WellFormed
  version_eq : srv.core.currentVersion = srv.core.doc.currentVersion
  count_eq : srv.core.pendingCount = srv.log.length

theorem Coherent.intact {srv : Server} (coherent : srv.Coherent) : srv.Intact :=
  ⟨coherent.wellFormed, coherent.version_eq, coherent.count_eq⟩

/-- What a line asks the allocator for and links, at a server's current version. -/
def lineItems (srv : Server) (role : UserRole) (line : Text) : List TraceItem :=
  Core.lineItems srv.store role line

theorem linksOf_lineItems (srv : Server) (role : UserRole) (line : Text) :
    linksOf (srv.lineItems role line) = (srv.plan role line).2 :=
  Core.linksOf_lineItems srv.store role line

/-- The server that has linked operations without logging them. -/
def linked (srv : Server) (ops : List Op) : Server :=
  srv.withStore (srv.store.enqueueAll ops)

/-- The server that has applied what is pending, with its log as it was. -/
def applied (srv : Server) : Server where
  core :=
    { srv.core with doc := srv.store.commit.doc, currentVersion := srv.store.commit.version }
  opLists := srv.store.commit.opLists

/-- The server with its log cleared. -/
def cleared (srv : Server) : Server where
  core := { srv.core with pending := .empty, pendingCount := 0 }
  opLists := srv.opLists

/-- What the first half of a commit leads to when nothing fails. -/
def advanced (srv : Server) : Server :=
  if 0 < srv.core.pendingCount then srv.applied else srv

theorem cleared_advanced (srv : Server) : srv.advanced.cleared = srv.commit := by
  unfold advanced commit cleared applied
  split <;> rfl

/-- The number of requests of that half. -/
def incrementRequests (srv : Server) : Nat :=
  if 0 < srv.core.pendingCount then srv.store.incrementSizes.length else 0

namespace Intact

variable {srv : Server}

theorem linked (intact : srv.Intact) {ops : List Op}
    (inRange : AllInRange srv.store.committedText (srv.store.pending ++ ops)) :
    (srv.linked ops).Intact where
  wellFormed := intact.wellFormed.enqueueAll inRange
  version_eq := intact.version_eq.trans (Store.version_enqueueAll srv.store ops).symm
  count_eq := intact.count_eq

theorem submitted (intact : srv.Intact) {ops : List Op}
    (inRange : AllInRange srv.store.committedText (srv.store.pending ++ ops))
    (entry : EditLogEntry) : (srv.submitted ops entry).Intact where
  wellFormed := intact.wellFormed.enqueueAll inRange
  version_eq := intact.version_eq.trans (Store.version_enqueueAll srv.store ops).symm
  count_eq := by
    rw [log_submitted, List.length_append, List.length_singleton, ← intact.count_eq]
    rfl

theorem applied (intact : srv.Intact) : srv.applied.Intact where
  wellFormed := Store.WellFormed.commit srv.store
  version_eq := rfl
  count_eq := intact.count_eq

theorem cleared (intact : srv.Intact) : srv.cleared.Intact where
  wellFormed := intact.wellFormed
  version_eq := intact.version_eq
  count_eq := rfl

theorem advanced (intact : srv.Intact) : srv.advanced.Intact := by
  unfold Server.advanced
  split
  · exact intact.applied
  · exact intact

end Intact

end Server

/-! ## Submissions -/

/-- Logging an entry takes three requests. -/
theorem appendLogEntry_faulty (core : ServerCore) (user line : Text) (r : CommandResult)
    (answers : Answers) :
    (Faulty.Spares answers 3 ∧ (Faulty.run (appendLogEntry core user line r) answers).1 =
      some { core with
        pending := core.pending.append ⟨user, withoutTrailingNewline line, r⟩
        pendingCount := core.pendingCount + 1 }) ∨
    ¬Faulty.Spares answers 3 ∧
      (Faulty.run (appendLogEntry core user line r) answers).1 = none := by
  match answers with
  | [] | [true] | [true, true] => exact .inl ⟨by decide, rfl⟩
  | true :: true :: true :: rest => exact .inl ⟨by simp [Faulty.Spares], rfl⟩
  | true :: true :: false :: rest => exact .inr ⟨by simp [Faulty.Spares], rfl⟩
  | [true, false] => exact .inr ⟨by decide, rfl⟩
  | true :: false :: true :: rest => exact .inr ⟨by simp [Faulty.Spares], rfl⟩
  | true :: false :: false :: rest => exact .inr ⟨by simp [Faulty.Spares], rfl⟩
  | false :: rest => exact .inr ⟨by simp [Faulty.Spares], rfl⟩

namespace Server.Intact

variable {srv : Server}

/-- What a submission does: it is planned and logged, or linked and not logged, or
stopped at a request. -/
theorem submit_faulty (intact : srv.Intact) (user : Text) (role : UserRole) (line : Text)
    (answers : Answers) :
    let plan := srv.plan role line
    let items := srv.lineItems role line
    let entry := EditLogEntry.mk user (withoutTrailingNewline line)
    let out := (Faulty.run (serverCoreSubmit srv (some user) role (some line)) answers).1
    (Faulty.Spares answers (requestCount items + 3) ∧
      out = (plan.1, srv.submitted plan.2 (entry plan.1))) ∨
    (Faulty.Spares answers (requestCount items) ∧
      ¬Faulty.Spares answers (requestCount items + 3) ∧
      out = (.rejectInvalidCommand, srv.linked plan.2)) ∨
    ∃ made size rest r, items = made ++ .request size :: rest ∧
      Faulty.FailsAt answers (requestCount made) ∧ r ≠ .success ∧
      (out = (r, srv.submitted (linksOf made) (entry r)) ∨
        out = (.rejectInvalidCommand, srv.linked (linksOf made))) := by
  intro plan items entry out
  have current : srv.core.currentVersion = srv.store.version := intact.version_eq
  -- What logging does to the outcome of the command.
  have logged (r : CommandResult) (ops : List Op) (left : Answers)
      (executed : Faulty.run (commandExecute srv.store srv.core.currentVersion role (some line))
        answers = ((r, srv.store.enqueueAll ops), left)) :
      (Faulty.Spares left 3 ∧ out = (r, srv.submitted ops (entry r))) ∨
        ¬Faulty.Spares left 3 ∧ out = (.rejectInvalidCommand, srv.linked ops) := by
    rcases appendLogEntry_faulty (srv.linked ops).core user line r left with
      ⟨spared, appended⟩ | ⟨notSpared, failed⟩
    · refine .inl ⟨spared, ?_⟩
      simp only [out, serverCoreSubmit, Faulty.run_bind, executed]
      rw [Server.linked] at appended
      rw [appended]
      rfl
    · refine .inr ⟨notSpared, ?_⟩
      simp only [out, serverCoreSubmit, Faulty.run_bind, executed]
      rw [Server.linked] at failed
      rw [failed]
      rfl
  rcases commandExecute_faulty intact.wellFormed.sound role line answers with
    ⟨spared, executed⟩ | ⟨made, size, rest, r, split, fails, rejected, executed⟩
  · rw [← current] at executed
    rcases logged _ _ _ executed with ⟨later, all⟩ | ⟨notLater, unlogged⟩
    · exact .inl ⟨Faulty.spares_add.mpr ⟨spared, later⟩, all⟩
    · exact .inr (.inl ⟨spared, fun both => notLater (Faulty.spares_add.mp both).2, unlogged⟩)
  · rw [← current] at executed
    refine .inr (.inr ⟨made, size, rest, r, split, fails, rejected, ?_⟩)
    rcases logged _ _ _ executed with ⟨-, logged⟩ | ⟨-, unlogged⟩
    · exact .inl logged
    · exact .inr unlogged

/-- Whatever fails, a submission leaves a prefix of its operations. -/
theorem submit_cases (intact : srv.Intact) (user : Text) (role : UserRole) (line : Text)
    (answers : Answers) :
    ∃ ops, ops <+: (srv.plan role line).2 ∧
      ((∃ entry, (Faulty.run (serverCoreSubmit srv (some user) role (some line)) answers).1.2 =
          srv.submitted ops entry) ∨
        (Faulty.run (serverCoreSubmit srv (some user) role (some line)) answers).1.2 =
          srv.linked ops) := by
  rcases intact.submit_faulty user role line answers with
    ⟨-, all⟩ | ⟨-, -, unlogged⟩ | ⟨made, size, rest, r, split, -, -, stopped⟩
  · exact ⟨_, List.prefix_rfl, .inl ⟨_, by rw [all]⟩⟩
  · exact ⟨_, List.prefix_rfl, .inr (by rw [unlogged])⟩
  · refine ⟨linksOf made, ?_, ?_⟩
    · rw [← srv.linksOf_lineItems, split, linksOf_append]
      exact List.prefix_append _ _
    · rcases stopped with logged | unlogged
      · exact .inl ⟨_, by rw [logged]⟩
      · exact .inr (by rw [unlogged])

/-! ## Commits -/

/-- The first half of a commit applies what is pending or changes nothing. -/
theorem applyPending_faulty (intact : srv.Intact) (answers : Answers) :
    (Faulty.Spares answers srv.incrementRequests ∧
      Faulty.run (applyPending srv) answers =
        (srv.advanced, answers.drop srv.incrementRequests)) ∨
    ∃ k < srv.incrementRequests, Faulty.FailsAt answers k ∧
      Faulty.run (applyPending srv) answers = (srv, answers.drop (k + 1)) := by
  unfold applyPending incrementRequests Server.advanced
  by_cases counted : 0 < srv.core.pendingCount
  · simp only [if_pos counted, Faulty.run_bind]
    rcases markdownIncrementVersion_faulty srv.store answers with
      ⟨spared, committed⟩ | ⟨k, bound, fails, refused⟩
    · left
      constructor
      · exact spared
      · rw [committed]
        rfl
    · right
      refine ⟨k, bound, fails, ?_⟩
      have same : { srv with core := { srv.core with
          currentVersion := srv.core.doc.currentVersion } } = srv := by
        rw [← intact.version_eq]
      rw [refused]
      exact Prod.ext same rfl
  · simp only [if_neg counted]
    exact .inl ⟨Faulty.spares_zero answers, rfl⟩

/-- What a commit does: both halves succeed or fail, in each combination. -/
theorem commit_faulty (intact : srv.Intact) (answers : Answers) :
    let n := srv.incrementRequests
    let out := (Faulty.run (serverCoreCommit srv) answers).1
    (Faulty.Spares answers (n + 1) ∧
      out = (printPayload srv.log srv.commit.core.currentVersion, srv.commit)) ∨
    (Faulty.FailsAt answers n ∧ out = (none, srv.advanced)) ∨
    (∃ k < n, Faulty.FailsAt answers k ∧ Faulty.Spares (answers.drop (k + 1)) 1 ∧
      out = (printPayload srv.log srv.core.currentVersion, srv.cleared)) ∨
    ∃ k < n, Faulty.FailsAt answers k ∧ Faulty.FailsAt (answers.drop (k + 1)) 0 ∧
      out = (none, srv) := by
  intro n out
  have log_advanced : srv.advanced.core.pending.head = srv.log := by
    unfold Server.advanced
    split <;> rfl
  -- The payload of the server that the first half leads to.
  have printed (mid : Server) (left : Answers)
      (halfway : Faulty.run (applyPending srv) answers = (mid, left)) :
      (Faulty.Spares left 1 ∧
        out = (printPayload mid.core.pending.head mid.core.currentVersion, mid.cleared)) ∨
        Faulty.FailsAt left 0 ∧ out = (none, mid) := by
    have out_eq : out = (Faulty.run (do
        let size := broadcastPayloadSize mid.core.pending.head mid.core.currentVersion
        if ← malloc ((size + 1) % sizeModulus).toNat then
          return (printPayload mid.core.pending.head mid.core.currentVersion, mid.cleared)
        else
          return (none, mid) : Faulty _) left).1 := by
      simp only [out, serverCoreCommit, Faulty.run_bind, halfway]
      rfl
    rw [out_eq, Faulty.run_bind]
    rcases Faulty.run_malloc _ left with ⟨spared, granted⟩ | ⟨fails, refused⟩
    · refine .inl ⟨spared, ?_⟩
      rw [granted]
      rfl
    · exact .inr ⟨fails, by rw [refused]; rfl⟩
  rcases intact.applyPending_faulty answers with
    ⟨spared, halfway⟩ | ⟨k, bound, fails, halfway⟩
  · rcases printed _ _ halfway with ⟨later, announced⟩ | ⟨later, lost⟩
    · refine .inl ⟨Faulty.spares_add.mpr ⟨spared, later⟩, ?_⟩
      rw [announced, log_advanced, ← srv.cleared_advanced]
      rfl
    · exact .inr (.inl ⟨Faulty.failsAt_add.mpr ⟨spared, later⟩, lost⟩)
  · rcases printed _ _ halfway with ⟨later, announced⟩ | ⟨later, lost⟩
    · exact .inr (.inr (.inl ⟨k, bound, fails, later, announced⟩))
    · exact .inr (.inr (.inr ⟨k, bound, fails, later, lost⟩))

/-- The servers that a commit may leave. -/
theorem commit_cases (intact : srv.Intact) (answers : Answers) :
    let left := (Faulty.run (serverCoreCommit srv) answers).1.2
    left = srv.commit ∨ left = srv.advanced ∨ left = srv.cleared ∨ left = srv := by
  intro left
  rcases intact.commit_faulty answers with
    ⟨-, all⟩ | ⟨-, lost⟩ | ⟨k, -, -, -, early⟩ | ⟨k, -, -, -, none⟩
  · exact .inl (by simp only [left, all])
  · exact .inr (.inl (by simp only [left, lost]))
  · exact .inr (.inr (.inl (by simp only [left, early])))
  · exact .inr (.inr (.inr (by simp only [left, none])))

end Server.Intact

/-! ## Runs -/

/-- A call, with what the allocator answers during it. -/
structure FaultyStep where
  call : CoreStep
  answers : Answers
  deriving DecidableEq, Repr

/-- A call of the core in a process whose allocations may fail. -/
def faultyStep (srv : Server) (step : FaultyStep) : Server × CoreEvent :=
  match step.call with
  | .submit user role commandLine =>
      let out := (Faulty.run (serverCoreSubmit srv user role commandLine) step.answers).1
      (out.2, .submitted user commandLine out.1)
  | .commit =>
      let out := (Faulty.run (serverCoreCommit srv) step.answers).1
      (out.2, .committed out.1)

theorem faultyStep_submit (srv : Server) (user : Option Text) (role : UserRole)
    (line : Option Text) (answers : Answers) :
    faultyStep srv ⟨.submit user role line, answers⟩ =
      ((Faulty.run (serverCoreSubmit srv user role line) answers).1.2,
        .submitted user line (Faulty.run (serverCoreSubmit srv user role line) answers).1.1) :=
  rfl

theorem faultyStep_commit (srv : Server) (answers : Answers) :
    faultyStep srv ⟨.commit, answers⟩ =
      ((Faulty.run (serverCoreCommit srv) answers).1.2,
        .committed (Faulty.run (serverCoreCommit srv) answers).1.1) :=
  rfl

/-- A call with a NULL argument asks for nothing. -/
theorem faultyStep_submit_null (srv : Server) {user line : Option Text} (role : UserRole)
    (answers : Answers) (missing : user = none ∨ line = none) :
    faultyStep srv ⟨.submit user role line, answers⟩ =
      (srv, .submitted user line .rejectInvalidCommand) := by
  rcases missing with rfl | rfl
  · rfl
  · cases user <;> rfl

/-- Without failures a step is the step of a server with memory to spare. -/
theorem faultyStep_nil {srv : Server} (coherent : srv.Coherent) (call : CoreStep) :
    faultyStep srv ⟨call, []⟩ = coreStep srv call := by
  have spared (n : Nat) : Faulty.Spares [] n := by simp [Faulty.Spares]
  rcases call.cases with ⟨user, role, line, missing, rfl⟩ | ⟨user, role, line, rfl⟩ | rfl
  · rw [faultyStep_submit_null srv role [] missing, coreStep_submit_null srv role missing]
  · rw [coherent.coreStep_submit, faultyStep_submit]
    rcases coherent.intact.submit_faulty user role line [] with
      ⟨-, all⟩ | ⟨-, notSpared, -⟩ | ⟨made, size, rest, r, -, fails, -⟩
    · simp only [all]
    · exact absurd (spared _) notSpared
    · exact absurd (spared _) (fails.not_spares (Nat.lt_succ_self _))
  · rw [coreStep_commit, faultyStep_commit]
    rcases coherent.intact.commit_faulty [] with
      ⟨-, all⟩ | ⟨fails, -⟩ | ⟨k, bound, fails, -⟩ | ⟨k, bound, fails, -⟩
    · simp only [all]
    · exact absurd (spared _) (fails.not_spares (Nat.lt_succ_self _))
    · exact absurd (spared _) (fails.not_spares bound)
    · exact absurd (spared _) (fails.not_spares bound)

theorem faultyStep_intact (srv : Server) (step : FaultyStep) (intact : srv.Intact) :
    (faultyStep srv step).1.Intact := by
  obtain ⟨call, answers⟩ := step
  rcases call.cases with ⟨user, role, line, missing, rfl⟩ | ⟨user, role, line, rfl⟩ | rfl
  · rwa [faultyStep_submit_null srv role answers missing]
  · obtain ⟨ops, ⟨later, together⟩, left⟩ := intact.submit_cases user role line answers
    have inRange := planLine_inRange intact.wellFormed.sound role line
    rw [← Server.plan, ← together, ← List.append_assoc, allInRange_append] at inRange
    rcases left with ⟨entry, logged⟩ | linked
    · rw [faultyStep_submit, logged]
      exact intact.submitted inRange.1 entry
    · rw [faultyStep_submit, linked]
      exact intact.linked inRange.1
  · have committed : srv.commit.Intact := srv.cleared_advanced ▸ intact.advanced.cleared
    rcases intact.commit_cases answers with left | left | left | left
    · rwa [faultyStep_commit, left]
    · rw [faultyStep_commit, left]
      exact intact.advanced
    · rw [faultyStep_commit, left]
      exact intact.cleared
    · rwa [faultyStep_commit, left]

end CollabMarkdown.Core
