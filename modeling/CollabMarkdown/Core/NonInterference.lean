import CollabMarkdown.Core.Invariant

/-!
# Non-writers

A run of the server core compared with the same run from which the submissions
of non-writers were purged.  The rejected submissions still make commits count,
so versions may differ; texts, pending edits and the results of writers do not,
because a commit without pending edits finds a text that is already renumbered.
-/

namespace CollabMarkdown.Core

open CollabMarkdown.CString
open CollabMarkdown.Command
open CollabMarkdown.Markdown
open CollabMarkdown.Transition

/-! ## Commands of non-writers -/

/-- The table of write commands covers everything the dispatcher executes. -/
theorem isWriteCommand_of_parseEdit {cmd save : Text} {edit : Edit}
    (parsed : parseEdit cmd save = some edit) : isWriteCommand cmd = true := by
  by_contra notWrite
  have absent : cmd ∉ writeCommands := by simpa [isWriteCommand] using notWrite
  simp only [writeCommands, List.mem_cons, List.not_mem_nil, or_false, not_or] at absent
  simp [parseEdit, absent] at parsed

/-- A line of a non-writer is rejected before any edit call. -/
theorem parseLine_nonWriter {role : UserRole} (nonWriter : role ≠ .write) (line : Text) :
    ∃ r, parseLine role line = .error r := by
  cases parsed : parseLine role line with
  | error r => exact ⟨r, rfl⟩
  | ok edit =>
      obtain ⟨-, cmd, save, -, authorised, called⟩ := parseLine_eq_ok_iff.mp parsed
      exact absurd ⟨isWriteCommand_of_parseEdit called, nonWriter⟩ authorised

theorem planLine_nonWriter {role : UserRole} (nonWriter : role ≠ .write)
    (line committed : Text) (pending : List Op) :
    (planLine role line committed pending).2 = [] := by
  obtain ⟨r, rejected⟩ := parseLine_nonWriter nonWriter line
  rw [planLine, rejected]

/-! ## Two runs -/

/-- A step that the purged run keeps: a submission of a writer, or a commit. -/
def byWriter : CoreStep → Bool
  | .submit _ role _ => role = .write
  | .commit => true

/-- The result of a submission of a writer. -/
def writerResult : CoreStep → CoreEvent → Option CommandResult
  | .submit _ .write _, .submitted _ _ result => some result
  | _, _ => none

/-- The results of the writers in a run, in order. -/
def writerResults (steps : List CoreStep) (events : List CoreEvent) : List CommandResult :=
  (List.zipWith writerResult steps events).reduceOption

/-- Two servers hold the same committed text and the same pending edits. -/
structure SameEdits (full purged : Server) : Prop where
  fullCoherent : full.Coherent
  purgedCoherent : purged.Coherent
  committedText_eq : full.store.committedText = purged.store.committedText
  pending_eq : full.store.pending = purged.store.pending

namespace SameEdits

variable {full purged : Server}

theorem plan_eq (same : SameEdits full purged) (role : UserRole) (line : Text) :
    full.plan role line = purged.plan role line := by
  rw [Server.plan, Server.plan, same.committedText_eq, same.pending_eq]

/-- The same submission to both. -/
theorem submit (same : SameEdits full purged) (user : Text) (role : UserRole) (line : Text) :
    SameEdits (coreStep full (.submit (some user) role (some line))).1
      (coreStep purged (.submit (some user) role (some line))).1 where
  fullCoherent := coreStep_coherent _ _ same.fullCoherent
  purgedCoherent := coreStep_coherent _ _ same.purgedCoherent
  committedText_eq := by
    rw [same.fullCoherent.coreStep_submit, same.purgedCoherent.coreStep_submit]
    simpa using same.committedText_eq
  pending_eq := by
    rw [same.fullCoherent.coreStep_submit, same.purgedCoherent.coreStep_submit]
    simp [same.plan_eq, same.pending_eq]

/-- A submission of a non-writer to the full run alone. -/
theorem submit_nonWriter (same : SameEdits full purged) {role : UserRole}
    (nonWriter : role ≠ .write) (user line : Text) :
    SameEdits (coreStep full (.submit (some user) role (some line))).1 purged where
  fullCoherent := coreStep_coherent _ _ same.fullCoherent
  purgedCoherent := same.purgedCoherent
  committedText_eq := by
    rw [same.fullCoherent.coreStep_submit]
    simpa using same.committedText_eq
  pending_eq := by
    rw [same.fullCoherent.coreStep_submit]
    simp [Server.plan, planLine_nonWriter nonWriter, same.pending_eq]

/-- A commit of both, which only one of them may apply. -/
theorem commit (same : SameEdits full purged) :
    SameEdits (coreStep full .commit).1 (coreStep purged .commit).1 where
  fullCoherent := coreStep_coherent _ _ same.fullCoherent
  purgedCoherent := coreStep_coherent _ _ same.purgedCoherent
  committedText_eq := by
    rw [coreStep_commit, coreStep_commit, same.fullCoherent.committedText_commit,
      same.purgedCoherent.committedText_commit, Store.workingText, same.committedText_eq,
      same.pending_eq, Store.workingText]
  pending_eq := by
    rw [coreStep_commit, coreStep_commit, same.fullCoherent.pending_commit,
      same.purgedCoherent.pending_commit]

/-- A step that the purged run keeps moves both servers, with the same result for
a writer. -/
theorem kept (same : SameEdits full purged) {step : CoreStep} (keeps : byWriter step = true) :
    SameEdits (coreStep full step).1 (coreStep purged step).1 ∧
      writerResult step (coreStep full step).2 = writerResult step (coreStep purged step).2 := by
  rcases step.cases with ⟨user, role, line, missing, rfl⟩ | ⟨user, role, line, rfl⟩ | rfl
  · rw [coreStep_submit_null full role missing, coreStep_submit_null purged role missing]
    exact ⟨same, rfl⟩
  · refine ⟨same.submit user role line, ?_⟩
    rw [same.fullCoherent.coreStep_submit, same.purgedCoherent.coreStep_submit, same.plan_eq]
  · refine ⟨same.commit, ?_⟩
    rw [coreStep_commit, coreStep_commit]
    rfl

/-- A step that the purged run skips moves the full one alone, and no writer sees
a result. -/
theorem dropped (same : SameEdits full purged) {step : CoreStep} (drops : byWriter step = false) :
    SameEdits (coreStep full step).1 purged ∧ writerResult step (coreStep full step).2 = none := by
  have silent {user line : Option Text} {role : UserRole} (nonWriter : role ≠ .write)
      (event : CoreEvent) : writerResult (.submit user role line) event = none := by
    cases role with
    | read => rfl
    | write => contradiction
  rcases step.cases with ⟨user, role, line, missing, rfl⟩ | ⟨user, role, line, rfl⟩ | rfl
  · have nonWriter : role ≠ .write := by simpa [byWriter] using drops
    rw [coreStep_submit_null full role missing]
    exact ⟨same, silent nonWriter _⟩
  · have nonWriter : role ≠ .write := by simpa [byWriter] using drops
    exact ⟨same.submit_nonWriter nonWriter user line, silent nonWriter _⟩
  · contradiction

end SameEdits

/-- Deleting the submissions of non-writers from a run changes neither the
committed text nor the pending edits nor the results of writers. -/
theorem non_writers_cannot_influence (addr : DocAddr) (others : OtherOps addr)
    (steps : List CoreStep) :
    let full := reached addr others steps
    let purged := reached addr others (steps.filter byWriter)
    full.store.committedText = purged.store.committedText ∧
      full.store.pending = purged.store.pending ∧
      writerResults steps (events addr others steps) =
        writerResults (steps.filter byWriter) (events addr others (steps.filter byWriter)) := by
  have initial : SameEdits (Server.fresh addr others) (Server.fresh addr others) :=
    ⟨Server.coherent_fresh addr others, Server.coherent_fresh addr others, rfl, rfl⟩
  obtain ⟨same, results⟩ := run_purge coreStep byWriter SameEdits writerResult
    (fun _ _ _ same keeps => same.kept keeps) (fun _ _ _ same drops => same.dropped drops)
    initial steps
  exact ⟨same.committedText_eq, same.pending_eq, results⟩

end CollabMarkdown.Core
