import CollabMarkdown.Command.Execute
import CollabMarkdown.Markdown.Session

/-!
# Documents under commands

Commands as steps on a document.  A command is all or nothing: either it
succeeds and appends the operations of one plan, or it leaves the store as it
was.  `planLine` is the specification the later modules use.
-/

namespace CollabMarkdown.Command

open CollabMarkdown.CString
open CollabMarkdown.Markdown
open CollabMarkdown.Transition

theorem commandExecute_wellFormed {s : Store} (wellFormed : s.WellFormed) (version : UInt64)
    (role : UserRole) (line : Option Text) :
    (Id.run (commandExecute s version role line)).2.WellFormed := by
  cases line with
  | none => exact wellFormed
  | some line =>
      rw [run_commandExecute]
      cases parseLine role line with
      | error r => exact wellFormed
      | ok edit => exact edit.run_wellFormed wellFormed version

/-- The results of a command that does not succeed at the current version. -/
def CommandResult.Rejection (r : CommandResult) : Prop :=
  r ≠ .success ∧ r ≠ .rejectOutdatedVersion

instance (r : CommandResult) : Decidable r.Rejection :=
  inferInstanceAs (Decidable (_ ∧ _))

theorem rejection_mapMarkdownResult {r : MarkdownResult} (rejected : r.Rejection) :
    (mapMarkdownResult r).Rejection := by
  obtain ⟨notSuccess, notOutdated⟩ := rejected
  cases r with
  | success => contradiction
  | invalidCursorPos => decide
  | deletedPosition => decide
  | outdatedVersion => contradiction

theorem parseLine_rejected {role : UserRole} {line : Text} {r : CommandResult}
    (rejected : parseLine role line = .error r) : r.Rejection := by
  rcases parseLine_error rejected with rfl | ⟨-, rfl⟩ <;> decide

/-- The result of a line at the current version and the operations it appends,
from the committed text and the pending operations alone. -/
def planLine (role : UserRole) (line committed : Text) (pending : List Op) :
    CommandResult × List Op :=
  match parseLine role line with
  | .error r => (r, [])
  | .ok edit =>
      match edit.plan committed pending with
      | .error r => (mapMarkdownResult r, [])
      | .ok ops => (.success, ops)

/-- A line succeeds and appends the operations its edit call plans, or appends
nothing. -/
theorem planLine_cases (role : UserRole) (line committed : Text) (pending : List Op) :
    (∃ edit ops, parseLine role line = .ok edit ∧ edit.plan committed pending = .ok ops ∧
        planLine role line committed pending = (.success, ops)) ∨
      ∃ r, CommandResult.Rejection r ∧ planLine role line committed pending = (r, []) := by
  unfold planLine
  cases parsed : parseLine role line with
  | error r => exact .inr ⟨r, parseLine_rejected parsed, rfl⟩
  | ok edit =>
      cases planned : edit.plan committed pending with
      | ok ops => exact .inl ⟨edit, ops, rfl, planned, by simp only [planned]⟩
      | error r =>
          exact .inr ⟨mapMarkdownResult r, rejection_mapMarkdownResult (edit.plan_rejected planned),
            by simp only [planned]⟩

/-- At the current version a line is never rejected for the version. -/
theorem planLine_ne_outdated (role : UserRole) (line committed : Text) (pending : List Op) :
    (planLine role line committed pending).1 ≠ .rejectOutdatedVersion := by
  rcases planLine_cases role line committed pending with
    ⟨edit, ops, -, -, eq⟩ | ⟨r, rejection, eq⟩
  · rw [eq]
    rintro ⟨⟩
  · rw [eq]
    exact rejection.2

theorem planLine_inRange {committed : Text} {pending : List Op}
    (inRange : AllInRange committed pending) (role : UserRole) (line : Text) :
    AllInRange committed (pending ++ (planLine role line committed pending).2) := by
  rcases planLine_cases role line committed pending with
    ⟨edit, ops, -, planned, eq⟩ | ⟨r, -, eq⟩
  · rw [eq]
    exact edit.plan_inRange inRange planned
  · rw [eq, List.append_nil]
    exact inRange

/-- At the current version a command follows its plan. -/
theorem run_commandExecute_current {s : Store} (sound : s.Sound) (role : UserRole) (line : Text) :
    Id.run (commandExecute s s.version role (some line)) =
      ((planLine role line s.committedText s.pending).1,
        s.enqueueAll (planLine role line s.committedText s.pending).2) := by
  rw [run_commandExecute, planLine]
  cases parseLine role line with
  | error r => rfl
  | ok edit =>
      simp only [edit.run_eq sound]
      cases edit.plan s.committedText s.pending <;> rfl

/-- A command that does not succeed leaves the store, whatever its version. -/
theorem commandExecute_rejected {s : Store} (sound : s.Sound) {version : UInt64}
    {role : UserRole} {line : Option Text}
    (rejected : (Id.run (commandExecute s version role line)).1 ≠ .success) :
    (Id.run (commandExecute s version role line)).2 = s := by
  cases line with
  | none => rfl
  | some line =>
      rw [run_commandExecute] at rejected ⊢
      cases parsed : parseLine role line with
      | error r => rfl
      | ok edit =>
          rw [parsed] at rejected
          exact edit.run_rejected sound fun success =>
            rejected (mapMarkdownResult_eq_success_iff.mpr success)

/-! ## Runs -/

/-- The calls that change one document from outside the engine. -/
inductive DocumentStep where
  | execute (version : UInt64) (role : UserRole) (line : Option Text)
  | increment
  deriving DecidableEq, Repr

/-- One call, with the result of a command. -/
def documentStep (s : Store) : DocumentStep → Store × Option CommandResult
  | .execute version role line =>
      ((Id.run (commandExecute s version role line)).2,
        some (Id.run (commandExecute s version role line)).1)
  | .increment => (Id.run (markdownIncrementVersion s), none)

theorem documentStep_wellFormed (s : Store) (step : DocumentStep) (wellFormed : s.WellFormed) :
    (documentStep s step).1.WellFormed := by
  cases step with
  | execute version role line => exact commandExecute_wellFormed wellFormed version role line
  | increment =>
      rw [documentStep, run_markdownIncrementVersion]
      exact Store.WellFormed.commit s

/-- In every reachable document, a command that returns anything but success
leaves the committed text, the version and the pending operations untouched. -/
theorem rejected_command_leaves_no_trace (addr : DocAddr) (others : OtherOps addr)
    (steps : List DocumentStep) (version : UInt64) (role : UserRole) (line : Option Text)
    (s : Store) (reached : (run documentStep (Store.fresh addr others) steps).1 = s)
    (rejected : (Id.run (commandExecute s version role line)).1 ≠ .success) :
    (Id.run (commandExecute s version role line)).2 = s := by
  have wellFormed : s.WellFormed := reached ▸
    run_invariant documentStep Store.WellFormed documentStep_wellFormed
      (Store.wellFormed_fresh addr others) steps
  exact commandExecute_rejected wellFormed.sound rejected

/-- A heading past the end of a text that is still pending. -/
theorem rejected_command_leaves_no_trace_heading :
    let s := (run documentStep (Store.fresh 1 ⟨[], rfl⟩)
      [.execute 0 .write (some (ascii "INSERT 0 abc\n"))]).1
    (Id.run (commandExecute s 0 .write (some (ascii "HEADING 1 9\n")))).2 = s :=
  rejected_command_leaves_no_trace 1 ⟨[], rfl⟩ _ 0 .write _ _ rfl (by decide)

end CollabMarkdown.Command
