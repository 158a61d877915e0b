import CollabMarkdown.Markdown.Edit

/-!
# What an edit call does

An edit call made at the current version either is rejected or appends a list
of operations to the pending ones.  `Edit.plan` says which, from the committed
text and the pending operations alone.

The plan of a range command inserts at transformed positions.  That the second
insertion cannot fail rests on an invariant of pending lists: every operation is
in range of the text it applies to, so transformed positions stay in range too.
-/

namespace CollabMarkdown.Markdown

open CollabMarkdown.CString

/-! ## Operations in range -/

/-- The operation stays inside a text of length `n`. -/
def Op.InRange (n : Nat) : Op → Prop
  | .insert pos _ => pos ≤ n
  | .delete pos len => pos ≤ n ∧ sizeAdd pos len ≤ n

/-- Every operation of a list stays inside the text that those before it leave. -/
def AllInRange : Text → List Op → Prop
  | _, [] => True
  | text, op :: rest => op.InRange text.length ∧ AllInRange (op.splice text) rest

@[simp]
theorem allInRange_nil (text : Text) : AllInRange text [] :=
  trivial

@[simp]
theorem allInRange_cons (text : Text) (op : Op) (rest : List Op) :
    AllInRange text (op :: rest) ↔ op.InRange text.length ∧ AllInRange (op.splice text) rest :=
  Iff.rfl

theorem allInRange_append (text : Text) (first second : List Op) :
    AllInRange text (first ++ second) ↔
      AllInRange text first ∧ AllInRange (spliceAll text first) second := by
  induction first generalizing text with
  | nil => simp
  | cons op rest ih => simp [ih, and_assoc]

theorem clampPos_of_le {n pos : Nat} (le : pos ≤ n) : clampPos n pos = pos := by
  unfold clampPos
  split <;> omega

/-- An insertion always splices at the clamped position, which `take` and `drop`
do by themselves. -/
theorem splice_insert (text : Text) (pos : Nat) (data : Text) :
    (Op.insert pos data).splice text = text.take pos ++ data ++ text.drop pos := by
  simp only [Op.splice, clampPos]
  split
  · rw [List.take_of_length_le (Nat.le_refl _), List.drop_of_length_le (Nat.le_refl _),
      List.take_of_length_le (by omega), List.drop_of_length_le (by omega)]
  · rfl

theorem splice_delete {text : Text} {pos len : Nat}
    (inRange : (Op.delete pos len).InRange text.length) :
    (Op.delete pos len).splice text = text.take pos ++ text.drop (sizeAdd pos len) := by
  simp only [Op.splice, clampPos_of_le inRange.1, clampLen]
  rw [if_neg (Nat.not_lt.mpr inRange.2)]

@[simp]
theorem length_splice_insert (text : Text) (pos : Nat) (data : Text) :
    ((Op.insert pos data).splice text).length = text.length + data.length := by
  rw [splice_insert]
  simp
  omega

theorem length_splice_delete {text : Text} {pos len : Nat}
    (inRange : (Op.delete pos len).InRange text.length) :
    ((Op.delete pos len).splice text).length = pos + (text.length - sizeAdd pos len) := by
  rw [splice_delete inRange, List.length_append, List.length_take, List.length_drop,
    Nat.min_eq_left inRange.1]

/-- A position inside the text is carried to a position inside the next text.
Deletions whose end wraps around lengthen the text by what they move the
position. -/
theorem transformOp_le {text : Text} {op : Op} {adjusted next : Nat}
    (inside : adjusted ≤ text.length) (inRange : op.InRange text.length)
    (moved : transformOp adjusted op = .ok next) : next ≤ (op.splice text).length := by
  cases op with
  | insert pos data =>
      simp only [transformOp, Except.ok.injEq] at moved
      rw [length_splice_insert]
      split at moved <;> omega
  | delete pos len =>
      rw [length_splice_delete inRange]
      obtain ⟨posLe, endLe⟩ := inRange
      simp only [transformOp] at moved
      split at moved
      · contradiction
      · rename_i survives
        split at moved
        · rename_i after
          have endBefore : sizeAdd pos len ≤ adjusted := by omega
          rw [if_pos endBefore] at moved
          have moved := Except.ok.inj moved
          unfold sizeSub at moved
          unfold sizeAdd sizeModulus UInt64.size at *
          split at moved <;> omega
        · have moved := Except.ok.inj moved
          omega

theorem transformOps_le {text : Text} {ops : List Op} {adjusted next : Nat}
    (inside : adjusted ≤ text.length) (inRange : AllInRange text ops)
    (moved : transformOps ops adjusted = .ok next) : next ≤ (spliceAll text ops).length := by
  induction ops generalizing text adjusted with
  | nil => exact Except.ok.inj moved ▸ inside
  | cons op rest ih =>
      cases step : transformOp adjusted op with
      | error r => simp [transformOps, step, Except.bind] at moved
      | ok middle =>
          simp only [transformOps, step, Except.bind] at moved
          exact ih (transformOp_le inside inRange.1 step) inRange.2 moved

/-! ## Plans -/

/-- The operations of a call at a cursor position, which must lie in the text. -/
def planAt (working : Text) (pos : Nat) (ops : List Op) : Except MarkdownResult (List Op) :=
  if working.length < pos then .error .invalidCursorPos else .ok ops

theorem planAt_eq_ok {working : Text} {pos : Nat} {ops planned : List Op}
    (accepted : planAt working pos ops = .ok planned) :
    pos ≤ working.length ∧ planned = ops := by
  unfold planAt at accepted
  split at accepted
  · contradiction
  · exact ⟨by omega, (Except.ok.inj accepted).symm⟩

/-- Drop a space right after the cursor. -/
def dropSpaceOps (working : Text) (pos : Nat) : List Op :=
  if pos < working.length ∧ byteAt working pos = space then [.delete pos 1] else []

/-- A marker at the start of a line, with the line break if one is needed. -/
def blockOps (working : Text) (pos : Nat) (marker : Text) : List Op :=
  if 0 < pos ∧ byteAt working (pos - 1) ≠ newline then
    [.insert pos [newline], .insert (pos + 1) marker]
  else
    [.insert pos marker]

/-- What `format_range` enqueues, or its rejection. -/
def planRange (committed : Text) (pending : List Op) (start stop : Nat)
    (opening closing : Text) : Except MarkdownResult (List Op) :=
  if stop ≤ start ∨ committed.length < stop then
    .error .invalidCursorPos
  else
    (transformOps pending start).bind fun adjustedStart =>
      (transformOps pending stop).bind fun adjustedEnd =>
        .ok [.insert adjustedEnd closing, .insert adjustedStart opening]

/-- The operations an edit call appends, or the code it is rejected with. -/
def Edit.plan (committed : Text) (pending : List Op) : Edit → Except MarkdownResult (List Op)
  | .insert pos content =>
      planAt (spliceAll committed pending) pos [.insert pos (content.getD [])]
  | .delete pos len =>
      let n := (spliceAll committed pending).length
      planAt (spliceAll committed pending) pos <|
        if len = 0 then [] else [.delete pos (if n < sizeAdd pos len then n - pos else len)]
  | .newline pos =>
      let working := spliceAll committed pending
      planAt working pos (dropSpaceOps working pos ++ [.insert pos [CString.newline]])
  | .heading level pos =>
      let working := spliceAll committed pending
      if level < 1 ∨ 3 < level then
        .error .invalidCursorPos
      else
        planAt working pos (blockOps working pos (headingTag level))
  | .blockquote pos =>
      let working := spliceAll committed pending
      planAt working pos (blockOps working pos (ascii "> "))
  | .orderedList pos =>
      let working := spliceAll committed pending
      planAt working pos (dropSpaceOps working pos ++ blockOps working pos (ascii "1. "))
  | .unorderedList pos =>
      let working := spliceAll committed pending
      planAt working pos (blockOps working pos (ascii "- "))
  | .horizontalRule pos =>
      let working := spliceAll committed pending
      planAt working pos (blockOps working pos (ascii "---\n"))
  | .bold start stop => planRange committed pending start stop (ascii "**") (ascii "**")
  | .italic start stop => planRange committed pending start stop (ascii "*") (ascii "*")
  | .code start stop => planRange committed pending start stop (ascii "`") (ascii "`")
  | .link _ _ none => .error .invalidCursorPos
  | .link start stop (some url) =>
      planRange committed pending start stop (ascii "[") (ascii "](" ++ url ++ ascii ")")

namespace Store

/-- Enqueue a list of operations in order. -/
def enqueueAll (s : Store) (ops : List Op) : Store :=
  ops.foldl enqueue s

@[simp]
theorem enqueueAll_nil (s : Store) : s.enqueueAll [] = s :=
  rfl

@[simp]
theorem enqueueAll_cons (s : Store) (op : Op) (rest : List Op) :
    s.enqueueAll (op :: rest) = (s.enqueue op).enqueueAll rest :=
  rfl

@[simp]
theorem pending_enqueueAll (s : Store) (ops : List Op) :
    (s.enqueueAll ops).pending = s.pending ++ ops := by
  induction ops generalizing s with
  | nil => simp
  | cons op rest ih => simp [ih]

@[simp]
theorem doc_enqueue (s : Store) (op : Op) : (s.enqueue op).doc = s.doc :=
  rfl

@[simp]
theorem doc_enqueueAll (s : Store) (ops : List Op) : (s.enqueueAll ops).doc = s.doc := by
  induction ops generalizing s with
  | nil => rfl
  | cons op rest ih => rw [enqueueAll_cons, ih, doc_enqueue]

@[simp]
theorem committedText_enqueueAll (s : Store) (ops : List Op) :
    (s.enqueueAll ops).committedText = s.committedText := by
  rw [committedText, doc_enqueueAll, committedText]

@[simp]
theorem version_enqueueAll (s : Store) (ops : List Op) :
    (s.enqueueAll ops).version = s.version := by
  rw [version, doc_enqueueAll, version]

@[simp]
theorem workingText_enqueue (s : Store) (op : Op) :
    (s.enqueue op).workingText = op.splice s.workingText := by
  simp [workingText]

@[simp]
theorem workingText_enqueueAll (s : Store) (ops : List Op) :
    (s.enqueueAll ops).workingText = spliceAll s.workingText ops := by
  simp [workingText]

/-- The store with the operations of a plan, or the store as it was. -/
def follow (s : Store) : Except MarkdownResult (List Op) → MarkdownResult × Store
  | .error r => (r, s)
  | .ok ops => (.success, s.enqueueAll ops)

/-- The pending operations of a store are in range. -/
def Sound (s : Store) : Prop :=
  AllInRange s.committedText s.pending

end Store

/-! ## The calls follow their plans -/

theorem run_validateVersionAndGetLen (s : Store) (version : UInt64) :
    Id.run (validateVersionAndGetLen s version) =
      if version ≠ s.version then .error .outdatedVersion else .ok s.workingText := by
  simp [validateVersionAndGetLen, apply_ite Id.run]

theorem run_markdownInsert (s : Store) (version : UInt64) (pos : Nat) (content : Option Text) :
    Id.run (markdownInsert s version pos content) =
      if version ≠ s.version then (.outdatedVersion, s)
      else s.follow (planAt s.workingText pos [.insert pos (content.getD [])]) := by
  simp only [markdownInsert, Id.run_bind, run_validateVersionAndGetLen]
  by_cases current : version ≠ s.version
  · simp [current]
  · by_cases outside : s.workingText.length < pos <;>
      simp [current, planAt, outside, Store.follow]

theorem run_markdownDelete (s : Store) (version : UInt64) (pos len : Nat) :
    Id.run (markdownDelete s version pos len) =
      if version ≠ s.version then (.outdatedVersion, s)
      else s.follow (planAt s.workingText pos <| if len = 0 then [] else
        [.delete pos (if s.workingText.length < sizeAdd pos len
          then s.workingText.length - pos else len)]) := by
  simp only [markdownDelete, Id.run_bind, run_validateVersionAndGetLen]
  by_cases current : version ≠ s.version
  · simp [current]
  · by_cases outside : s.workingText.length < pos <;> by_cases empty : len = 0 <;>
      simp [current, planAt, outside, empty, Store.follow]

/-- The one-byte deletion at the cursor is in range and never clamped. -/
theorem delete_one_inRange {n pos : Nat} (inside : pos < n) :
    (Op.delete pos 1).InRange n :=
  ⟨Nat.le_of_lt inside, Nat.le_trans (sizeAdd_le pos 1) inside⟩

/-- Dropping the space leaves the cursor in the text. -/
theorem le_length_splice_space {text : Text} {pos : Nat} (inside : pos < text.length) :
    pos ≤ ((Op.delete pos 1).splice text).length := by
  rw [length_splice_delete (delete_one_inRange inside)]
  omega

/-- Dropping the space leaves the byte before the cursor. -/
theorem blockOps_splice_space {text : Text} {pos : Nat} (inside : pos < text.length)
    (marker : Text) :
    blockOps ((Op.delete pos 1).splice text) pos marker = blockOps text pos marker := by
  rcases Nat.eq_zero_or_pos pos with rfl | positive
  · simp [blockOps]
  · have before : byteAt ((Op.delete pos 1).splice text) (pos - 1) = byteAt text (pos - 1) := by
      rw [splice_delete (delete_one_inRange inside), byteAt, byteAt, List.getD_eq_getElem?_getD,
        List.getElem?_append_left (by rw [List.length_take]; omega),
        List.getElem?_take_of_lt (by omega), List.getD_eq_getElem?_getD]
    rw [blockOps, before, blockOps]

/-- The codes an edit call at the current version is rejected with. -/
def MarkdownResult.Rejection (r : MarkdownResult) : Prop :=
  r ≠ .success ∧ r ≠ .outdatedVersion

instance (r : MarkdownResult) : Decidable r.Rejection :=
  inferInstanceAs (Decidable (_ ∧ _))

/-- The only error of a position is that it was deleted. -/
theorem transformOps_error {ops : List Op} {p : Nat} {r : MarkdownResult}
    (refused : transformOps ops p = .error r) : r = .deletedPosition := by
  induction ops generalizing p with
  | nil => contradiction
  | cons op rest ih =>
      cases step : transformOp p op with
      | ok next => exact ih (by simpa [transformOps, step, Except.bind] using refused)
      | error r' =>
          simp only [transformOps, step, Except.bind, Except.error.injEq] at refused
          subst refused
          cases op with
          | insert pos data => contradiction
          | delete pos len =>
              simp only [transformOp] at step
              split at step
              · exact (Except.error.inj step).symm
              · split at step <;> contradiction

theorem transformOps_rejected {ops : List Op} {adjusted : Nat} {r : MarkdownResult}
    (rejected : transformOps ops adjusted = .error r) : r.Rejection := by
  rw [transformOps_error rejected]
  decide

theorem planRange_rejected {committed opening closing : Text} {pending : List Op}
    {start stop : Nat} {r : MarkdownResult}
    (rejected : planRange committed pending start stop opening closing = .error r) :
    r.Rejection := by
  unfold planRange at rejected
  split at rejected
  · exact Except.error.inj rejected ▸ by decide
  · cases startMoved : transformOps pending start with
    | error r' =>
        simp only [startMoved, Except.bind, Except.error.injEq] at rejected
        exact rejected ▸ transformOps_rejected startMoved
    | ok adjustedStart =>
        cases stopMoved : transformOps pending stop with
        | error r' =>
            simp only [startMoved, stopMoved, Except.bind, Except.error.injEq] at rejected
            exact rejected ▸ transformOps_rejected stopMoved
        | ok adjustedEnd => simp [startMoved, stopMoved, Except.bind] at rejected

theorem planAt_rejected {working : Text} {pos : Nat} {ops : List Op} {r : MarkdownResult}
    (rejected : planAt working pos ops = .error r) : r.Rejection := by
  unfold planAt at rejected
  split at rejected
  · exact Except.error.inj rejected ▸ by decide
  · contradiction

/-- A plan is rejected for a position, and never for the version. -/
theorem Edit.plan_rejected (e : Edit) {committed : Text} {pending : List Op}
    {r : MarkdownResult} (rejected : e.plan committed pending = .error r) : r.Rejection := by
  cases e with
  | heading level pos =>
      simp only [Edit.plan] at rejected
      split at rejected
      · exact Except.error.inj rejected ▸ by decide
      · exact planAt_rejected rejected
  | insert _ _ | delete _ _ | newline _ | blockquote _ | orderedList _ | unorderedList _
  | horizontalRule _ => exact planAt_rejected rejected
  | bold _ _ | italic _ _ | code _ _ => exact planRange_rejected rejected
  | link start stop url =>
      cases url with
      | none => exact Except.error.inj rejected ▸ by decide
      | some url => exact planRange_rejected rejected

end CollabMarkdown.Markdown
