import CollabMarkdown.Markdown.Trace
import CollabMarkdown.Transition.Run

/-!
# Editing sessions

The states a document passes through under edit calls and version increments.
`Store.WellFormed` collects what holds in all of them: the pending operations
are in range, the committed text is a fixed point of renumbering, and the stored
length is the length of the text.
-/

namespace CollabMarkdown.Markdown

open CollabMarkdown.CString
open CollabMarkdown.Transition

/-! ## Rejected and accepted calls -/

/-- A call with a stale version is rejected and leaves the store alone.  Most
calls report the version; a heading level or a missing URL is checked first. -/
theorem Edit.run_stale (e : Edit) {s : Store} {version : UInt64} (stale : version ≠ s.version) :
    ∃ r, r ≠ .success ∧ Id.run (e.run s version) = (r, s) := by
  refine ⟨e.staleResult, ?_, by rw [e.run_of_stale stale]; rfl⟩
  cases e with
  | heading level pos =>
      rw [Edit.staleResult]
      split <;> decide
  | link start stop url => cases url <;> exact MarkdownResult.noConfusion
  | _ => exact MarkdownResult.noConfusion

theorem dropSpaceOps_inRange (working : Text) (pos : Nat) :
    AllInRange working (dropSpaceOps working pos) := by
  unfold dropSpaceOps
  split
  case isTrue atSpace => exact ⟨delete_one_inRange atSpace.1, trivial⟩
  case isFalse => exact trivial

theorem le_length_dropSpaceOps {working : Text} {pos : Nat} (inside : pos ≤ working.length) :
    pos ≤ (spliceAll working (dropSpaceOps working pos)).length := by
  unfold dropSpaceOps
  split
  case isTrue atSpace => exact le_length_splice_space atSpace.1
  case isFalse => exact inside

theorem blockOps_inRange {working text : Text} {pos : Nat} (inside : pos ≤ text.length)
    (marker : Text) : AllInRange text (blockOps working pos marker) := by
  unfold blockOps
  split
  · simpa [Op.InRange] using inside
  · exact ⟨inside, trivial⟩

theorem planRange_inRange {committed : Text} {pending ops : List Op} {start stop : Nat}
    {opening closing : Text} (inRange : AllInRange committed pending)
    (accepted : planRange committed pending start stop opening closing = .ok ops) :
    AllInRange (spliceAll committed pending) ops := by
  unfold planRange at accepted
  split at accepted
  · contradiction
  · rename_i valid
    cases startMoved : transformOps pending start with
    | error r => simp [startMoved, Except.bind] at accepted
    | ok adjustedStart =>
        cases stopMoved : transformOps pending stop with
        | error r => simp [startMoved, stopMoved, Except.bind] at accepted
        | ok adjustedEnd =>
            simp only [startMoved, stopMoved, Except.bind, Except.ok.injEq] at accepted
            subst accepted
            have startLe := transformOps_le (by omega) inRange startMoved
            have stopLe := transformOps_le (by omega) inRange stopMoved
            exact ⟨stopLe, by rw [length_splice_insert]; exact Nat.le_add_right_of_le startLe,
              trivial⟩

/-- The operations of an accepted call are in range behind the pending ones. -/
theorem Edit.plan_inRange (e : Edit) {committed : Text} {pending ops : List Op}
    (inRange : AllInRange committed pending) (accepted : e.plan committed pending = .ok ops) :
    AllInRange committed (pending ++ ops) := by
  rw [allInRange_append]
  refine ⟨inRange, ?_⟩
  cases e with
  | insert pos content =>
      obtain ⟨inside, rfl⟩ := planAt_eq_ok accepted
      exact ⟨inside, trivial⟩
  | delete pos len =>
      obtain ⟨inside, rfl⟩ := planAt_eq_ok accepted
      split
      · exact trivial
      · refine ⟨⟨inside, ?_⟩, trivial⟩
        split
        · exact Nat.le_trans (sizeAdd_le _ _) (by omega)
        · omega
  | newline pos =>
      obtain ⟨inside, rfl⟩ := planAt_eq_ok accepted
      rw [allInRange_append]
      exact ⟨dropSpaceOps_inRange _ _, le_length_dropSpaceOps inside, trivial⟩
  | heading level pos =>
      simp only [Edit.plan] at accepted
      split at accepted
      · contradiction
      · obtain ⟨inside, rfl⟩ := planAt_eq_ok accepted
        exact blockOps_inRange inside _
  | blockquote pos | unorderedList pos | horizontalRule pos =>
      obtain ⟨inside, rfl⟩ := planAt_eq_ok accepted
      exact blockOps_inRange inside _
  | orderedList pos =>
      obtain ⟨inside, rfl⟩ := planAt_eq_ok accepted
      rw [allInRange_append]
      exact ⟨dropSpaceOps_inRange _ _, blockOps_inRange (le_length_dropSpaceOps inside) _⟩
  | bold start stop | italic start stop | code start stop =>
      exact planRange_inRange inRange accepted
  | link start stop url =>
      cases url with
      | none => contradiction
      | some url => exact planRange_inRange inRange accepted

/-! ## Committing -/

/-- `markdown_increment_version` with allocations succeeding: the renumbered
working text becomes the committed one. -/
def Store.commit (s : Store) : Store where
  doc :=
    { s.doc with
      committedHead := some ⟨renumbered s.workingText, (renumbered s.workingText).length⟩
      currentVersion := s.doc.currentVersion + 1 }
  opLists := clearOps s.opLists s.doc.addr

theorem run_markdownIncrementVersion (s : Store) :
    Id.run (markdownIncrementVersion s) = s.commit := by
  have replaced (text : Text) : Id.run (commitText s.doc text) =
      some { s.doc with committedHead := some ⟨text, text.length⟩ } := by
    unfold commitText
    cases s.doc.committedHead <;> simp
  simp [markdownIncrementVersion, replaced, Store.commit]

namespace Store

@[simp]
theorem committedText_commit (s : Store) :
    s.commit.committedText = renumbered s.workingText :=
  rfl

@[simp]
theorem version_commit (s : Store) : s.commit.version = s.version + 1 :=
  rfl

@[simp]
theorem pending_commit (s : Store) : s.commit.pending = [] :=
  pendingOps_clearOps _ _

theorem workingText_of_pending_nil {s : Store} (none : s.pending = []) :
    s.workingText = s.committedText := by
  rw [workingText, none, spliceAll_nil]

end Store

/-! ## Reachable stores -/

/-- The pending operations of other documents, none of them of the one at
`addr`. -/
abbrev OtherOps (addr : DocAddr) : Type :=
  { opLists : List OpList // findOps opLists addr = none }

/-- The document `markdown_init` returns. -/
def emptyDocument (addr : DocAddr) : Document where
  addr := addr
  committedHead := some ⟨[], 0⟩
  currentVersion := 0

@[simp]
theorem run_markdownInit (addr : DocAddr) :
    Id.run (markdownInit addr) = some (emptyDocument addr) := by
  simp [markdownInit, emptyDocument]

namespace Store

/-- A document fresh from `markdown_init`. -/
def fresh (addr : DocAddr) (others : OtherOps addr) : Store where
  doc := emptyDocument addr
  opLists := others.val

@[simp]
theorem pending_fresh (addr : DocAddr) (others : OtherOps addr) :
    (fresh addr others).pending = [] := by
  simp [pending, pendingOps, fresh, emptyDocument, others.property]

/-- A document opened at a committed text and a version. -/
def snapshot (addr : DocAddr) (others : OtherOps addr) (text : Text) (version : UInt64) :
    Store where
  doc := { addr, committedHead := some ⟨text, text.length⟩, currentVersion := version }
  opLists := others.val

@[simp]
theorem pending_snapshot (addr : DocAddr) (others : OtherOps addr) (text : Text)
    (version : UInt64) : (snapshot addr others text version).pending = [] := by
  simp [pending, pendingOps, snapshot, others.property]

/-- What holds of every store that edit calls and increments lead to. -/
structure WellFormed (s : Store) : Prop where
  sound : s.Sound
  normalised : renumbered s.committedText = s.committedText
  stored : s.doc.committedHead = some ⟨s.committedText, s.committedText.length⟩

theorem wellFormed_fresh (addr : DocAddr) (others : OtherOps addr) :
    (fresh addr others).WellFormed where
  sound := by simp [Sound]
  normalised := rfl
  stored := rfl

theorem WellFormed.commit (s : Store) : s.commit.WellFormed where
  sound := by simp [Sound]
  normalised := renumbered_renumbered s.workingText
  stored := rfl

theorem WellFormed.enqueueAll {s : Store} (wellFormed : s.WellFormed) {ops : List Op}
    (inRange : AllInRange s.committedText (s.pending ++ ops)) :
    (s.enqueueAll ops).WellFormed where
  sound := by simpa [Sound] using inRange
  normalised := by simpa using wellFormed.normalised
  stored := by simpa using wellFormed.stored

/-- On a well-formed document without pending operations, a commit changes the
version alone. -/
theorem WellFormed.commit_of_pending_nil {s : Store} (wellFormed : s.WellFormed)
    (none : s.pending = []) :
    s.commit = { s with doc := { s.doc with currentVersion := s.doc.currentVersion + 1 } } := by
  rw [Store.commit, workingText_of_pending_nil none, wellFormed.normalised,
    clearOps_of_pending_nil none, ← wellFormed.stored]

end Store

/-- An edit call keeps a store well formed, whatever its version. -/
theorem Edit.run_wellFormed (e : Edit) {s : Store} (wellFormed : s.WellFormed)
    (version : UInt64) : (Id.run (e.run s version)).2.WellFormed := by
  by_cases current : version = s.version
  · rw [current, e.run_eq wellFormed.sound]
    cases planned : e.plan s.committedText s.pending with
    | error r => exact wellFormed
    | ok ops => exact wellFormed.enqueueAll (e.plan_inRange wellFormed.sound planned)
  · obtain ⟨r, -, rejected⟩ := e.run_stale current
    rw [rejected]
    exact wellFormed

/-- An edit call that does not succeed leaves the store as it was. -/
theorem Edit.run_rejected (e : Edit) {s : Store} (sound : s.Sound) {version : UInt64}
    (rejected : (Id.run (e.run s version)).1 ≠ .success) :
    (Id.run (e.run s version)).2 = s := by
  by_cases current : version = s.version
  · rw [current, e.run_eq sound] at rejected ⊢
    cases planned : e.plan s.committedText s.pending with
    | error r => rfl
    | ok ops => simp [planned, Store.follow] at rejected
  · obtain ⟨r, -, stale⟩ := e.run_stale current
    rw [stale]

/-! ## Runs -/

/-- The calls that change one document. -/
inductive EditStep where
  | edit (version : UInt64) (e : Edit)
  | increment
  deriving DecidableEq, Repr

/-- One call, with the result code of an edit. -/
def editStep (s : Store) : EditStep → Store × Option MarkdownResult
  | .edit version e => ((Id.run (e.run s version)).2, some (Id.run (e.run s version)).1)
  | .increment => (Id.run (markdownIncrementVersion s), none)

theorem editStep_wellFormed (s : Store) (step : EditStep) (wellFormed : s.WellFormed) :
    (editStep s step).1.WellFormed := by
  cases step with
  | edit version e => exact e.run_wellFormed wellFormed version
  | increment =>
      rw [editStep, run_markdownIncrementVersion]
      exact Store.WellFormed.commit s

/-- In every reachable document the ordered lists of the committed text are
numbered in order, and an increment without pending edits changes the version
alone. -/
theorem committedText_numberedInOrder (addr : DocAddr) (others : OtherOps addr)
    (steps : List EditStep) :
    let s := (run editStep (Store.fresh addr others) steps).1
    NumberedInOrder (lines s.committedText) ∧
      (s.pending = [] → Id.run (markdownIncrementVersion s) =
        { s with doc := { s.doc with currentVersion := s.doc.currentVersion + 1 } }) := by
  intro s
  have wellFormed : s.WellFormed :=
    run_invariant editStep Store.WellFormed editStep_wellFormed
      (Store.wellFormed_fresh addr others) steps
  refine ⟨numberedInOrder_of_fixed wellFormed.normalised, ?_⟩
  intro none
  rw [run_markdownIncrementVersion, wellFormed.commit_of_pending_nil none]

/-! ## Stale versions -/

/-- The calls that look at an argument before they look at the version, and reject
it. -/
def Edit.RejectedOutright : Edit → Prop
  | .heading level _ => level < 1 ∨ 3 < level
  | .link _ _ none => True
  | _ => False

/-- A call reports its version as outdated and changes nothing. -/
def ReportsStale (s : Store) (result : MarkdownResult × Store) : Prop :=
  result.1 = .outdatedVersion ∧ result.2.committedText = s.committedText ∧
    result.2.version = s.version ∧ result.2.pending = s.pending

theorem Edit.staleResult_eq_iff (e : Edit) :
    e.staleResult = .outdatedVersion ↔ ¬e.RejectedOutright := by
  cases e with
  | heading level pos =>
      rw [Edit.staleResult, Edit.RejectedOutright]
      split
      case isTrue outside => exact iff_of_false MarkdownResult.noConfusion (not_not_intro outside)
      case isFalse inside => exact iff_of_true rfl inside
  | link start stop url =>
      cases url with
      | none => exact iff_of_false MarkdownResult.noConfusion (not_not_intro trivial)
      | some url => exact iff_of_true rfl not_false
  | _ => exact iff_of_true rfl not_false

/-- At another version than the current one a call reports just that, unless it is a
heading of an impossible level or a link without a URL.  Nothing is allocated before
the versions are compared, so this holds whatever the allocator answers. -/
theorem reportsStale_iff (e : Edit) {s : Store} {version : UInt64} (stale : version ≠ s.version)
    (answers : Answers) :
    ReportsStale s (Faulty.run (e.run s version) answers).1 ↔ ¬e.RejectedOutright := by
  rw [e.run_of_stale stale, Faulty.run_pure, ← e.staleResult_eq_iff]
  exact and_iff_left ⟨rfl, rfl, rfl⟩

/-- A document at version 1. -/
def helloCommitted : Store :=
  (run editStep (Store.fresh 1 ⟨[], rfl⟩) [.edit 0 (.insert 0 (some (ascii "hello"))),
    .increment]).1

/-- A stale range is reported as stale, though it is also out of bounds. -/
theorem reportsStale_bold :
    ReportsStale helloCommitted
      (Faulty.run ((Edit.bold 9 2).run helloCommitted 0) []).1 :=
  (reportsStale_iff (.bold 9 2) (by decide) []).mpr not_false

/-- A stale heading of level four is reported as an invalid position. -/
theorem not_reportsStale_heading :
    (0 : UInt64) ≠ helloCommitted.version ∧
      ¬ReportsStale helloCommitted
        (Faulty.run ((Edit.heading 4 0).run helloCommitted 0) []).1 := by
  constructor
  · decide
  · intro reports
    exact absurd reports.1 (by decide)

end CollabMarkdown.Markdown
