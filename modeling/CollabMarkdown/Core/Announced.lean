import CollabMarkdown.Core.Faulty

/-!
# Edits and announcements

A submission that succeeds is a promise: its sub-edits enter the text together, in
the version whose payload lists it.  A `Ledger` carries the promises outstanding
along a run, and `Ledger.Announces` says what each call owes them.  When memory
runs out a call may break them, by linking sub-edits that it then reports as
rejected or by announcing a commit that did not take place.  `Sparing` is the exact
condition on the failures for which no call does, in runs whose lines can be printed.
-/

namespace CollabMarkdown.Core

open CollabMarkdown.CString
open CollabMarkdown.Command
open CollabMarkdown.Markdown
open CollabMarkdown.Transition

/-! ## Promises -/

/-- A submission that succeeded, as a payload lists it, and its sub-edits. -/
structure Promise where
  entry : EditLogEntry
  ops : List Op

/-- A server with the promises that no payload has announced yet. -/
structure Ledger where
  promises : List Promise
  srv : Server

/-- All sub-edits of the command that a call submits. -/
def Server.subEdits (srv : Server) : CoreStep → List Op
  | .submit _ role (some line) => (srv.plan role line).2
  | .submit _ _ none | .commit => []

namespace Ledger

/-- A new server, which has promised nothing. -/
def fresh (addr : DocAddr) (others : OtherOps addr) : Ledger :=
  ⟨[], Server.fresh addr others⟩

/-- The sub-edits promised, in order. -/
def promised (ledger : Ledger) : List Op :=
  ledger.promises.flatMap (·.ops)

/-- The promises after a call. -/
def promisesAfter (ledger : Ledger) (call : CoreStep) : CoreEvent → List Promise
  | .submitted (some user) (some line) result =>
      if result = .success then
        ledger.promises ++
          [⟨⟨user, withoutTrailingNewline line, result⟩, ledger.srv.subEdits call⟩]
      else
        ledger.promises
  | .submitted _ _ _ | .committed none => ledger.promises
  | .committed (some _) => []

/-- What a call owes the promises.  A submission adds all sub-edits of its command if
it succeeds and none if it does not.  A commit that returns a payload applies what
is promised, all of it and nothing else, in the version that the payload names, and
the successes it lists are the promises.  A commit without a payload changes
nothing. -/
def Owes (ledger : Ledger) (call : CoreStep) (after : Server) : CoreEvent → Prop
  | .submitted _ _ result =>
      after.store.committedText = ledger.srv.store.committedText ∧
        after.store.version = ledger.srv.store.version ∧
        after.store.pending = ledger.srv.store.pending ++
          if result = .success then ledger.srv.subEdits call else []
  | .committed (some payload) =>
      after.store.committedText =
          renumbered (spliceAll ledger.srv.store.committedText ledger.promised) ∧
        after.store.pending = [] ∧
        (ledger.promised ≠ [] → after.store.version = ledger.srv.store.version + 1) ∧
        ∃ entries, payload = payloadText after.store.version entries ∧
          entries.filter (·.result = .success) = ledger.promises.map (·.entry)
  | .committed none =>
      after.store.committedText = ledger.srv.store.committedText ∧
        after.store.pending = ledger.srv.store.pending ∧
        (ledger.promised ≠ [] → after.store.version = ledger.srv.store.version)

/-- The call in a step does what it owes. -/
def Announces (ledger : Ledger) (step : FaultyStep) : Prop :=
  ledger.Owes step.call (faultyStep ledger.srv step).1 (faultyStep ledger.srv step).2

end Ledger

/-- A step of a server under the eyes of its ledger. -/
def ledgerStep (ledger : Ledger) (step : FaultyStep) : Ledger × CoreEvent :=
  let out := faultyStep ledger.srv step
  (⟨ledger.promisesAfter step.call out.2, out.1⟩, out.2)

/-- In a run of submissions and commits, an edit takes effect if and only if it is
announced. -/
def EditsAnnounced (addr : DocAddr) (others : OtherOps addr) (steps : List FaultyStep) : Prop :=
  Meets ledgerStep Ledger.Announces (Ledger.fresh addr others) steps

/-! ## Failures that do no harm -/

/-- The requests of a trace in front of its first link. -/
def requestsBeforeLink : List TraceItem → Nat
  | .request _ :: rest => 1 + requestsBeforeLink rest
  | .link _ :: _ | [] => 0

theorem requestsBeforeLink_le (items : List TraceItem) :
    requestsBeforeLink items ≤ requestCount items := by
  induction items with
  | nil => exact Nat.le_refl 0
  | cons item rest ih =>
      cases item with
      | request size => exact Nat.add_le_add_left ih 1
      | link op => exact Nat.zero_le _

/-- A trace that stops at a request has linked nothing if and only if that request is
one of those in front of the first link. -/
theorem linksOf_eq_nil_iff {made rest : List TraceItem} {size : Nat} :
    linksOf made = [] ↔
      requestCount made < requestsBeforeLink (made ++ .request size :: rest) := by
  induction made with
  | nil => simp [linksOf, requestCount, requestsBeforeLink]
  | cons item made ih =>
      cases item with
      | request asked =>
          rw [linksOf_request, ih, List.cons_append, requestCount, requestsBeforeLink]
          omega
      | link op => simp [requestsBeforeLink]

/-- A submission with sub-edits meets a failed request before it has linked any, or
none, up to the requests of its log entry. -/
def Server.SparesSubmit (srv : Server) (role : UserRole) (line : Text) (answers : Answers) :
    Prop :=
  (srv.plan role line).2 = [] ∨
    (∃ k < requestsBeforeLink (srv.lineItems role line), Faulty.FailsAt answers k) ∨
    Faulty.Spares answers (requestCount (srv.lineItems role line) + 3)

/-- A commit of pending edits meets no failed request, or one while it applies them
and the next one at its payload. -/
def Server.SparesCommit (srv : Server) (answers : Answers) : Prop :=
  srv.store.pending = [] ∨ Faulty.Spares answers (srv.incrementRequests + 1) ∨
    ∃ k < srv.incrementRequests, Faulty.FailsAt answers k ∧
      Faulty.FailsAt (answers.drop (k + 1)) 0

/-- A submission that could not be logged is spared when it had nothing to link. -/
theorem Server.sparesSubmit_of_unlogged {srv : Server} {role : UserRole} {line : Text}
    {answers : Answers} (spared : Faulty.Spares answers (requestCount (srv.lineItems role line)))
    (unlogged : ¬Faulty.Spares answers (requestCount (srv.lineItems role line) + 3)) :
    srv.SparesSubmit role line answers ↔ (srv.plan role line).2 = [] := by
  constructor
  · rintro (none | ⟨k, before, fails⟩ | all)
    · exact none
    · exact absurd spared (fails.not_spares (Nat.lt_of_lt_of_le before (requestsBeforeLink_le _)))
    · exact absurd all unlogged
  · exact .inl

/-- A submission that was stopped is spared when it had linked nothing. -/
theorem Server.sparesSubmit_of_stopped {srv : Server} {role : UserRole} {line : Text}
    {answers : Answers} {made rest : List TraceItem} {size : Nat}
    (split : srv.lineItems role line = made ++ .request size :: rest)
    (fails : Faulty.FailsAt answers (requestCount made)) :
    srv.SparesSubmit role line answers ↔ linksOf made = [] := by
  have before := @linksOf_eq_nil_iff made rest size
  constructor
  · rintro (none | ⟨k, early, failsEarly⟩ | all)
    · have links : linksOf (made ++ .request size :: rest) = [] := by
        rw [← split, srv.linksOf_lineItems]
        exact none
      rw [linksOf_append] at links
      exact (List.append_eq_nil_iff.mp links).1
    · rw [before, ← split, fails.unique failsEarly]
      exact early
    · refine absurd all (fails.not_spares ?_)
      rw [split, requestCount_append]
      omega
  · intro none
    refine .inr (.inl ⟨requestCount made, ?_, fails⟩)
    rw [split]
    exact before.mp none

/-- A commit without a payload is spared when it had nothing to apply. -/
theorem Server.sparesCommit_of_unsent {srv : Server} {answers : Answers}
    (fails : Faulty.FailsAt answers srv.incrementRequests) :
    srv.SparesCommit answers ↔ srv.store.pending = [] := by
  constructor
  · rintro (none | all | ⟨k, bound, failsEarly, -⟩)
    · exact none
    · exact absurd all (fails.not_spares (Nat.lt_succ_self _))
    · exact absurd (failsEarly.unique fails) (Nat.ne_of_lt bound)
  · exact .inl

/-- So is one that sent a payload without applying what was pending. -/
theorem Server.sparesCommit_of_unapplied {srv : Server} {answers : Answers} {k : Nat}
    (bound : k < srv.incrementRequests) (fails : Faulty.FailsAt answers k)
    (granted : Faulty.Spares (answers.drop (k + 1)) 1) :
    srv.SparesCommit answers ↔ srv.store.pending = [] := by
  constructor
  · rintro (none | all | ⟨k', -, fails', also⟩)
    · exact none
    · exact absurd all (fails.not_spares (Nat.lt_succ_of_lt bound))
    · obtain rfl := fails.unique fails'
      exact absurd granted (also.not_spares Nat.one_pos)
  · exact .inl

/-- Whatever the result of a submission is, its line can be printed. -/
def CoreStep.Printable : CoreStep → Prop
  | .submit (some user) _ (some line) =>
      user.length + (withoutTrailingNewline line).length + 31 ≤ intMax
  | .submit _ _ _ | .commit => True

instance : (step : CoreStep) → Decidable step.Printable
  | .submit (some _) _ (some _) => inferInstanceAs (Decidable (_ ≤ _))
  | .submit none _ _ | .submit (some _) _ none | .commit => isTrue trivial

/-- The condition on a step. -/
def Sparing (srv : Server) (step : FaultyStep) : Prop :=
  match step.call with
  | .submit (some _) role (some line) => srv.SparesSubmit role line step.answers
  | .submit _ _ _ => True
  | .commit => srv.SparesCommit step.answers

/-! ## Balanced ledgers -/

/-- Edits are pending exactly as promised, and the log lists the promises as its
successes, in lines that can be printed. -/
structure Ledger.Balanced (ledger : Ledger) : Prop where
  coherent : ledger.srv.Coherent
  pending_eq : ledger.srv.store.pending = ledger.promised
  listed : ledger.srv.log.filter (·.result = .success) = ledger.promises.map (·.entry)
  printable : ∀ entry ∈ ledger.srv.log, entry.Printable

theorem Ledger.balanced_fresh (addr : DocAddr) (others : OtherOps addr) :
    (fresh addr others).Balanced where
  coherent := Server.coherent_fresh addr others
  pending_eq := Store.pending_fresh addr others
  listed := rfl
  printable _ member := absurd member List.not_mem_nil

namespace Server.Coherent

variable {srv : Server}

theorem store_advanced (srv : Server) : srv.advanced.store = srv.commit.store := by
  rw [← srv.cleared_advanced]
  rfl

/-- Clearing the log of a server on which nothing is pending. -/
theorem cleared (coherent : srv.Coherent) (none : srv.store.pending = []) :
    srv.cleared.Coherent :=
  ⟨coherent.wellFormed, coherent.version_eq, rfl, fun _ => none⟩

theorem advanced (coherent : srv.Coherent) : srv.advanced.Coherent := by
  obtain ⟨wellFormed, version_eq, count_eq⟩ := coherent.intact.advanced
  refine ⟨wellFormed, version_eq, count_eq, fun _ => ?_⟩
  rw [store_advanced, coherent.pending_commit]

end Server.Coherent

/-- A submission that is rejected plans no operations. -/
theorem plan_of_rejected {srv : Server} {role : UserRole} {line : Text}
    (rejected : (srv.plan role line).1 ≠ .success) : (srv.plan role line).2 = [] := by
  unfold Server.plan at rejected ⊢
  rcases planLine_cases role line srv.store.committedText srv.store.pending with
    ⟨edit, ops, -, -, eq⟩ | ⟨r, -, eq⟩
  · rw [eq] at rejected
    exact absurd rfl rejected
  · rw [eq]

namespace Ledger.Balanced

variable {ledger : Ledger}

/-- A submission that leaves some operations owes just these. -/
theorem owes_submitted {after : Server} {ops : List Op}
    (left : after.store = ledger.srv.store.enqueueAll ops) (call : CoreStep)
    (user line : Option Text) (result : CommandResult) :
    ledger.Owes call after (.submitted user line result) ↔
      ops = if result = .success then ledger.srv.subEdits call else [] := by
  simp only [Owes, left, Store.committedText_enqueueAll, Store.version_enqueueAll,
    Store.pending_enqueueAll, true_and, List.append_cancel_left_eq]

/-- A submission that is logged with all its sub-edits, or as rejected without any. -/
theorem submitted (balanced : ledger.Balanced) {call : CoreStep} {user line : Text}
    {result : CommandResult} {ops : List Op}
    (short : user.length + (withoutTrailingNewline line).length + 31 ≤ intMax)
    (inRange : AllInRange ledger.srv.store.committedText (ledger.srv.store.pending ++ ops))
    (whole : ops = if result = .success then ledger.srv.subEdits call else []) :
    Balanced
      ⟨ledger.promisesAfter call (.submitted (some user) (some line) result),
        ledger.srv.submitted ops ⟨user, withoutTrailingNewline line, result⟩⟩ where
  coherent := balanced.coherent.submitted inRange _
  pending_eq := by
    have pending_eq := balanced.pending_eq
    rw [promised] at pending_eq
    by_cases success : result = .success
    · simp [promised, promisesAfter, pending_eq, whole, success]
    · simp [promised, promisesAfter, pending_eq, whole, success]
  listed := by
    by_cases success : result = .success
    · simp [promisesAfter, balanced.listed, success]
    · simp [promisesAfter, balanced.listed, success]
  printable := by
    rw [Server.log_submitted, List.forall_mem_append, List.forall_mem_singleton]
    exact ⟨balanced.printable, EditLogEntry.printable_of_le short⟩

/-- One submission: the ledger stays balanced where the failures spare it, and what
it owes is paid nowhere else. -/
theorem submit (balanced : ledger.Balanced) {user line : Text}
    (short : user.length + (withoutTrailingNewline line).length + 31 ≤ intMax) (role : UserRole)
    (answers : Answers) :
    let step : FaultyStep := ⟨.submit (some user) role (some line), answers⟩
    (Sparing ledger.srv step ↔ ledger.Announces step) ∧
      (Sparing ledger.srv step → (ledgerStep ledger step).1.Balanced) := by
  intro step
  let plan := ledger.srv.plan role line
  have inRange := balanced.coherent.plan_inRange role line
  have noOps : AllInRange ledger.srv.store.committedText (ledger.srv.store.pending ++ []) := by
    rw [List.append_nil]
    exact balanced.coherent.wellFormed.sound
  -- What an outcome is worth, from the operations it leaves.
  have outcome {result : CommandResult} {after : Server} {ops : List Op}
      (left : after.store = ledger.srv.store.enqueueAll ops)
      (out : (Faulty.run (serverCoreSubmit ledger.srv (some user) role (some line)) answers).1 =
        (result, after)) :
      (ledger.Announces step ↔ ops = if result = .success then plan.2 else []) ∧
        (ledgerStep ledger step).1 =
          ⟨ledger.promisesAfter step.call (.submitted (some user) (some line) result), after⟩ := by
    simp only [Announces, ledgerStep, step, faultyStep_submit, out]
    exact ⟨owes_submitted left _ _ _ _, trivial⟩
  -- A rejection with what it leaves behind, logged or not.
  have rejection {result : CommandResult} (rejected : result ≠ .success) {after : Server}
      {ops : List Op}
      (out : (Faulty.run (serverCoreSubmit ledger.srv (some user) role (some line)) answers).1 =
        (result, after))
      (left : after = ledger.srv.submitted ops ⟨user, withoutTrailingNewline line, result⟩ ∨
        after = ledger.srv.linked ops)
      (spared : Sparing ledger.srv step ↔ ops = []) :
      (Sparing ledger.srv step ↔ ledger.Announces step) ∧
        (Sparing ledger.srv step → (ledgerStep ledger step).1.Balanced) := by
    have store_eq : after.store = ledger.srv.store.enqueueAll ops := by
      rcases left with rfl | rfl <;> rfl
    obtain ⟨owed, next⟩ := outcome store_eq out
    rw [if_neg rejected] at owed
    constructor
    · exact spared.trans owed.symm
    · intro sparing
      obtain rfl := spared.mp sparing
      rw [next]
      rcases left with rfl | rfl
      · exact balanced.submitted short noOps (if_neg rejected).symm
      · rw [promisesAfter, if_neg rejected]
        exact balanced
  rcases balanced.coherent.intact.submit_faulty user role line answers with
    ⟨spared, all⟩ | ⟨spared, notLogged, unlogged⟩ |
    ⟨made, size, rest, r, split, fails, rejected, out⟩
  · have whole : plan.2 = if plan.1 = .success then plan.2 else [] := by
      split
      case isTrue => rfl
      case isFalse rejected => exact plan_of_rejected rejected
    have sparing : Sparing ledger.srv step := .inr (.inr spared)
    obtain ⟨owed, next⟩ := outcome rfl all
    constructor
    · exact iff_of_true sparing (owed.mpr whole)
    · intro _
      rw [next]
      exact balanced.submitted short inRange whole
  · exact rejection (by decide) unlogged (.inr rfl)
      (Server.sparesSubmit_of_unlogged spared notLogged)
  · have stopped : Sparing ledger.srv step ↔ linksOf made = [] :=
      Server.sparesSubmit_of_stopped split fails
    rcases out with logged | unlogged
    · exact rejection rejected logged (.inl rfl) stopped
    · exact rejection (by decide) unlogged (.inr rfl) stopped

/-- Where nothing is pending, applying what is promised changes nothing. -/
theorem settled (balanced : ledger.Balanced) (none : ledger.srv.store.pending = []) :
    renumbered (spliceAll ledger.srv.store.committedText ledger.promised) =
      ledger.srv.store.committedText := by
  rw [← balanced.pending_eq, none, spliceAll_nil, balanced.coherent.wellFormed.normalised]

/-- A commit that no failure stops does what it owes. -/
theorem owes_commit (balanced : ledger.Balanced) :
    ledger.Owes .commit ledger.srv.commit
      (.committed (some (payloadText ledger.srv.commit.core.currentVersion ledger.srv.log))) := by
  have coherent := balanced.coherent
  have pending_eq := balanced.pending_eq
  have version_eq : ledger.srv.commit.core.currentVersion = ledger.srv.commit.store.version :=
    coherent.commit.version_eq
  refine ⟨?_, coherent.pending_commit, ?_, ?_⟩
  · rw [coherent.committedText_commit, Store.workingText, pending_eq]
  · intro some
    have logged : ledger.srv.log ≠ [] := fun empty =>
      some (pending_eq ▸ coherent.pending_logged empty)
    rw [(coherent.commit_of_log_ne_nil logged).1, Store.version_commit]
  · exact ⟨ledger.srv.log, by rw [version_eq], balanced.listed⟩

theorem after_commit (balanced : ledger.Balanced) : Balanced ⟨[], ledger.srv.commit⟩ where
  coherent := balanced.coherent.commit
  pending_eq := balanced.coherent.pending_commit
  listed := by
    rw [Server.log_commit]
    rfl
  printable := by
    rw [Server.log_commit]
    exact fun _ member => absurd member List.not_mem_nil

theorem pending_advanced (balanced : ledger.Balanced) :
    ledger.srv.advanced.store.pending = [] := by
  rw [Server.Coherent.store_advanced, balanced.coherent.pending_commit]

/-- A commit that applies the edits and cannot announce them does what it owes exactly if
there are none. -/
theorem owes_advanced_iff (balanced : ledger.Balanced) :
    ledger.Owes .commit ledger.srv.advanced (.committed none) ↔
      ledger.srv.store.pending = [] := by
  have coherent := balanced.coherent
  have pending_eq := balanced.pending_eq
  constructor
  · intro unchanged
    rw [← unchanged.2.1, balanced.pending_advanced]
  · intro none
    refine ⟨?_, by rw [balanced.pending_advanced, none],
      fun some => absurd (pending_eq ▸ none) some⟩
    rw [Server.Coherent.store_advanced, coherent.committedText_commit, Store.workingText,
      pending_eq, balanced.settled none]

theorem log_advanced (_ : ledger.Balanced) : ledger.srv.advanced.log = ledger.srv.log := by
  unfold Server.advanced
  split <;> rfl

theorem after_advanced (balanced : ledger.Balanced) (none : ledger.srv.store.pending = []) :
    Balanced ⟨ledger.promises, ledger.srv.advanced⟩ where
  coherent := balanced.coherent.advanced
  pending_eq := balanced.pending_advanced.trans (none.symm.trans balanced.pending_eq)
  listed := balanced.log_advanced ▸ balanced.listed
  printable := balanced.log_advanced ▸ balanced.printable

/-- The same holds of a commit that announces the edits and cannot apply them. -/
theorem owes_cleared_iff (balanced : ledger.Balanced) :
    ledger.Owes .commit ledger.srv.cleared
        (.committed (some (payloadText ledger.srv.core.currentVersion ledger.srv.log))) ↔
      ledger.srv.store.pending = [] := by
  constructor
  · exact fun applied => applied.2.1
  · intro none
    refine ⟨(balanced.settled none).symm, none,
      fun some => absurd (balanced.pending_eq ▸ none) some, ?_⟩
    exact ⟨ledger.srv.log, by rw [balanced.coherent.version_eq]; rfl, balanced.listed⟩

theorem after_cleared (balanced : ledger.Balanced) (none : ledger.srv.store.pending = []) :
    Balanced ⟨[], ledger.srv.cleared⟩ where
  coherent := balanced.coherent.cleared none
  pending_eq := none
  listed := rfl
  printable _ member := absurd member List.not_mem_nil

/-- One commit. -/
theorem commit (balanced : ledger.Balanced) (answers : Answers) :
    let step : FaultyStep := ⟨.commit, answers⟩
    (Sparing ledger.srv step ↔ ledger.Announces step) ∧
      (Sparing ledger.srv step → (ledgerStep ledger step).1.Balanced) := by
  intro step
  -- What is owed and what is next, from the outcome.
  have outcome {payload : Option Text} {after : Server}
      (out : (Faulty.run (serverCoreCommit ledger.srv) answers).1 = (payload, after)) :
      (ledger.Announces step ↔ ledger.Owes step.call after (.committed payload)) ∧
        (ledgerStep ledger step).1 =
          ⟨ledger.promisesAfter step.call (.committed payload), after⟩ := by
    simp only [Announces, ledgerStep, step, faultyStep_commit, out]
    exact ⟨trivial, trivial⟩
  have printed (version : UInt64) :
      printPayload ledger.srv.log version = some (payloadText version ledger.srv.log) :=
    (printPayload_eq_iff _ _).mpr balanced.printable
  rcases balanced.coherent.intact.commit_faulty answers with
    ⟨spared, out⟩ | ⟨fails, out⟩ | ⟨k, bound, fails, granted, out⟩ | ⟨k, bound, fails, also, out⟩
  · have sparing : Sparing ledger.srv step := .inr (.inl spared)
    rw [printed] at out
    obtain ⟨owed, next⟩ := outcome out
    refine ⟨iff_of_true sparing (owed.mpr balanced.owes_commit), fun _ => ?_⟩
    rw [next]
    exact balanced.after_commit
  · have sparing : Sparing ledger.srv step ↔ ledger.srv.store.pending = [] :=
      Server.sparesCommit_of_unsent fails
    obtain ⟨owed, next⟩ := outcome out
    refine ⟨sparing.trans (owed.trans balanced.owes_advanced_iff).symm, fun spared => ?_⟩
    rw [next]
    exact balanced.after_advanced (sparing.mp spared)
  · have sparing : Sparing ledger.srv step ↔ ledger.srv.store.pending = [] :=
      Server.sparesCommit_of_unapplied bound fails granted
    rw [printed] at out
    obtain ⟨owed, next⟩ := outcome out
    refine ⟨sparing.trans (owed.trans balanced.owes_cleared_iff).symm, fun spared => ?_⟩
    rw [next]
    exact balanced.after_cleared (sparing.mp spared)
  · have sparing : Sparing ledger.srv step := .inr (.inr ⟨k, bound, fails, also⟩)
    obtain ⟨owed, next⟩ := outcome out
    refine ⟨iff_of_true sparing (owed.mpr ⟨rfl, rfl, fun _ => rfl⟩), fun _ => ?_⟩
    rw [next]
    exact balanced

theorem step (balanced : ledger.Balanced) {step : FaultyStep} (printable : step.call.Printable) :
    (Sparing ledger.srv step ↔ ledger.Announces step) ∧
      (Sparing ledger.srv step → (ledgerStep ledger step).1.Balanced) := by
  obtain ⟨call, answers⟩ := step
  rcases call.cases with ⟨user, role, line, missing, rfl⟩ | ⟨user, role, line, rfl⟩ | rfl
  · have sparing : Sparing ledger.srv ⟨.submit user role line, answers⟩ := by
      rcases missing with rfl | rfl
      · trivial
      · cases user <;> trivial
    have null := faultyStep_submit_null ledger.srv role answers missing
    have kept : ledger.promisesAfter (.submit user role line)
        (.submitted user line .rejectInvalidCommand) = ledger.promises := by
      rcases missing with rfl | rfl
      · rfl
      · cases user <;> rfl
    refine ⟨iff_of_true sparing ?_, fun _ => ?_⟩
    · rw [Announces, null]
      exact (@owes_submitted ledger ledger.srv [] rfl _ _ _ _).mpr rfl
    · rw [ledgerStep, null, kept]
      exact balanced
  · exact balanced.submit printable role answers
  · exact balanced.commit answers

end Ledger.Balanced

/-! ## Runs -/

/-- In a run in which allocations fail in any pattern and each line can be printed, an
edit takes effect if and only if it is announced, exactly when every failure is one of
those that `Sparing` allows. -/
theorem editsAnnounced_iff (addr : DocAddr) (others : OtherOps addr) {steps : List FaultyStep}
    (printable : ∀ step ∈ steps, step.call.Printable) :
    EditsAnnounced addr others steps ↔
      Meets faultyStep Sparing (Server.fresh addr others) steps := by
  refine (Meets.iff_of_related (fun srv (ledger : Ledger) => ledger.srv = srv ∧ ledger.Balanced)
    ?_ ⟨rfl, Ledger.balanced_fresh addr others⟩ printable).symm
  rintro srv ledger step ⟨rfl, balanced⟩ printable
  obtain ⟨same, next⟩ := balanced.step printable
  exact ⟨same, fun sparing => ⟨rfl, next sparing⟩⟩

/-- A command that finds no memory at all is rejected, and the next one is announced. -/
theorem editsAnnounced_iff_firstRefused :
    EditsAnnounced 1 ⟨[], rfl⟩
      [⟨.submit (some (ascii "ann")) .write (some (ascii "INSERT 0 hello")), [false]⟩,
        ⟨.submit (some (ascii "ann")) .write (some (ascii "INSERT 0 hi")), []⟩, ⟨.commit, []⟩] := by
  have granted (n : Nat) : Faulty.Spares [] n := by simp [Faulty.Spares]
  refine (editsAnnounced_iff 1 ⟨[], rfl⟩ (by decide)).mpr
    ⟨.inr (.inl ⟨0, by decide, by decide⟩), .inr (.inr (granted _)), ?_, trivial⟩
  exact .inr (.inl (granted _))

/-- Four runs that break a promise: a command is rejected because its log entry
cannot be allocated, but stays pending; a range command is rejected at its second
delimiter, and the first one stays; an edit is announced although the commit did
not apply it; an edit is applied although no payload announces it. -/
theorem edits_not_announced :
    let submit (line : String) (answers : Answers) : FaultyStep :=
      ⟨.submit (some (ascii "ann")) .write (some (ascii line)), answers⟩
    ¬EditsAnnounced 1 ⟨[], rfl⟩ [submit "INSERT 0 hello" [true, true, true, true, true, false]] ∧
    ¬EditsAnnounced 1 ⟨[], rfl⟩ [submit "INSERT 0 hello" [], ⟨.commit, []⟩,
      submit "BOLD 0 5" [true, true, true, true, true, false]] ∧
    ¬EditsAnnounced 1 ⟨[], rfl⟩ [submit "INSERT 0 hello" [], ⟨.commit, [false]⟩] ∧
    ¬EditsAnnounced 1 ⟨[], rfl⟩ [submit "INSERT 0 hello" [],
      ⟨.commit, [true, true, true, false]⟩] := by
  refine ⟨fun announced => ?_, fun announced => ?_, fun announced => ?_, fun announced => ?_⟩
  · exact absurd announced.1.2.2 (by decide)
  · exact absurd announced.2.2.1.2.2 (by decide)
  · exact absurd announced.2.1.2.1 (by decide)
  · exact absurd announced.2.1.2.1 (by decide)

end CollabMarkdown.Core
