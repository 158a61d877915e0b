import CollabMarkdown.Markdown.CursorCommands
import CollabMarkdown.Sequence.Splice

/-!
# A text editor

What the engine is for: an editor that holds a text and replaces ranges of it, one edit
after the other.  It has no versions, no pending operations and no positions to
transform.  A document without pending operations is edited in the same way.
-/

namespace CollabMarkdown.Markdown

open CollabMarkdown.CString
open CollabMarkdown.Sequence

/-! ## The editor -/

/-- The position behind a space at a position, or the position. -/
def behindSpace (text : Text) (pos : Nat) : Nat :=
  if text[pos]? = some space then pos + 1 else pos

/-- A marker on a line of its own, behind what stands in front of a position. -/
def onNewLine (text : Text) (pos : Nat) (marker : Text) : Text :=
  (if 0 < pos ∧ text[pos - 1]? ≠ some newline then [newline] else []) ++ marker

/-- Replace the text from a cursor up to a place behind it. -/
def replaceAt (text : Text) (pos stop : Nat) (data : Text) : Option Text :=
  if pos ≤ text.length then some (replaceRange text pos stop data) else none

/-- Put text in front of a range and behind it. -/
def enclose (text : Text) (start stop : Nat) (opening closing : Text) : Option Text :=
  if start < stop ∧ stop ≤ text.length then
    some (replaceTwo text start start opening stop stop closing)
  else
    none

/-- The text after an edit, absent for a position that is not in the text.  A deletion
goes as far as the sum of its numbers says, which the source computes modulo `2 ^ 64`. -/
def Edit.apply (text : Text) : Edit → Option Text
  | .insert pos content => replaceAt text pos pos (content.getD [])
  | .delete pos len => replaceAt text pos (sizeAdd pos len) []
  | .newline pos => replaceAt text pos (behindSpace text pos) [CString.newline]
  | .heading level pos =>
      if 1 ≤ level ∧ level ≤ 3 then replaceAt text pos pos (onNewLine text pos (headingTag level))
      else none
  | .blockquote pos => replaceAt text pos pos (onNewLine text pos (ascii "> "))
  | .orderedList pos => replaceAt text pos (behindSpace text pos) (onNewLine text pos (ascii "1. "))
  | .unorderedList pos => replaceAt text pos pos (onNewLine text pos (ascii "- "))
  | .horizontalRule pos => replaceAt text pos pos (onNewLine text pos (ascii "---\n"))
  | .bold start stop => enclose text start stop (ascii "**") (ascii "**")
  | .italic start stop => enclose text start stop (ascii "*") (ascii "*")
  | .code start stop => enclose text start stop (ascii "`") (ascii "`")
  | .link _ _ none => none
  | .link start stop (some url) =>
      enclose text start stop (ascii "[") (ascii "](" ++ url ++ ascii ")")

/-- Number the lists of a text, line by line. -/
def numberLists (text : Text) : Text :=
  unlines (renumberLines 1 (lines text))

/-! ## The plans of a document without pending operations -/

theorem withoutSpace_drop (text : Text) (pos : Nat) :
    withoutSpace (text.drop pos) = text.drop (behindSpace text pos) := by
  unfold withoutSpace behindSpace
  rw [List.head?_drop]
  split
  · rw [List.tail_drop]
  · rfl

theorem onNewLine_eq {text : Text} {pos : Nat} (inside : pos ≤ text.length) (marker : Text) :
    onNewLine text pos marker = (if BreaksLine text pos then [newline] else []) ++ marker := by
  have same : BreaksLine text pos ↔ 0 < pos ∧ text[pos - 1]? ≠ some newline := by
    refine and_congr_right fun positive => not_congr ?_
    have before : pos - 1 < text.length := by omega
    rw [byteAt, List.getD_eq_getElem?_getD, List.getElem?_eq_getElem before, Option.getD_some,
      Option.some.injEq]
  simp only [onNewLine, same]

/-- The outcome of a plan, from the text an editor has after the edit. -/
def outcomeOf (edited : Option Text) : Except MarkdownResult Text :=
  edited.elim (.error .invalidCursorPos) .ok

theorem planAt_outcome {text data : Text} {pos stop : Nat} {ops : List Op}
    (effect : pos ≤ text.length → spliceAll text ops = replaceRange text pos stop data) :
    (planAt text pos ops).map (spliceAll text) = outcomeOf (replaceAt text pos stop data) := by
  by_cases inside : pos ≤ text.length
  · rw [planAt, if_neg (Nat.not_lt.mpr inside), replaceAt, if_pos inside, Except.map, effect inside]
    rfl
  · rw [planAt, if_pos (Nat.lt_of_not_le inside), replaceAt, if_neg inside]
    rfl

theorem CursorCommand.plan_outcome {c : CursorCommand} (valid : c.Valid) {text data : Text}
    {stop : Nat} (small : text.length < sizeModulus)
    (effect : c.pos ≤ text.length →
      c.inserted text = data ∧ c.kept text = text.drop stop) :
    (c.toEdit.plan text []).map (spliceAll text) = outcomeOf (replaceAt text c.pos stop data) := by
  rw [plan_toEdit valid, spliceAll_nil]
  apply planAt_outcome
  intro inside
  obtain ⟨inserted, kept⟩ := effect inside
  rw [c.spliceAll_ops small inside, inserted, kept, replaceRange]

/-- A deletion, with its length cut off at the end of the text. -/
theorem splice_delete_clamped {text : Text} {pos : Nat} (len : Nat) (inside : pos ≤ text.length)
    (small : text.length < sizeModulus) :
    (Op.delete pos (if text.length < sizeAdd pos len then text.length - pos else len)).splice text =
      replaceRange text pos (sizeAdd pos len) [] := by
  by_cases beyond : text.length < sizeAdd pos len
  · have stop_eq : sizeAdd pos (text.length - pos) = text.length := by
      rw [sizeAdd_of_lt (by omega)]
      omega
    rw [if_pos beyond, splice_delete ⟨inside, stop_eq.le⟩, stop_eq, replaceRange,
      List.drop_of_length_le (Nat.le_refl _), List.drop_of_length_le (Nat.le_of_lt beyond),
      List.append_nil, List.append_nil]
  · rw [if_neg beyond, splice_delete ⟨inside, Nat.le_of_not_lt beyond⟩, replaceRange,
      List.append_nil]

theorem planRange_outcome (text opening closing : Text) (start stop : Nat) :
    (planRange text [] start stop opening closing).map (spliceAll text) =
      outcomeOf (enclose text start stop opening closing) := by
  unfold planRange enclose
  by_cases inside : start < stop ∧ stop ≤ text.length
  · have accepted : ¬(stop ≤ start ∨ text.length < stop) := by omega
    rw [if_neg accepted, if_pos inside]
    have put (text : Text) (pos : Nat) (data : Text) :
        (Op.insert pos data).splice text = replaceRange text pos pos data := splice_insert ..
    simp only [transformOps, Except.bind, Except.map, spliceAll_cons, spliceAll_nil, put, outcomeOf,
      Option.elim_some]
    rw [replaceRange_right_first (Nat.le_refl _) (Nat.le_of_lt inside.1) (Nat.le_refl _) inside.2]
  · have refused : stop ≤ start ∨ text.length < stop := by omega
    rw [if_pos refused, if_neg inside]
    rfl

/-- Without pending operations an edit has the outcome it has in an editor. -/
theorem Edit.plan_outcome (e : Edit) {text : Text} (small : text.length < sizeModulus) :
    (e.plan text []).map (spliceAll text) = outcomeOf (e.apply text) := by
  have block (b : BlockCommand) (valid : b.Valid) {stop : Nat}
      (kept : (CursorCommand.block b).kept text = text.drop stop) :
      (b.toEdit.plan text []).map (spliceAll text) =
        outcomeOf (replaceAt text b.pos stop (onNewLine text b.pos b.marker)) :=
    CursorCommand.plan_outcome (c := .block b) valid small fun inside =>
      ⟨(onNewLine_eq inside _).symm, kept⟩
  cases e with
  | insert pos content =>
      exact CursorCommand.plan_outcome (c := .insert pos content) trivial small
        fun _ => ⟨rfl, rfl⟩
  | delete pos len =>
      rw [Edit.plan, Edit.apply, spliceAll_nil]
      apply planAt_outcome
      intro inside
      by_cases none : len = 0
      · subst none
        rw [if_pos rfl, spliceAll_nil, sizeAdd_of_lt (by omega), replaceRange, List.append_nil,
          Nat.add_zero, List.take_append_drop]
      · rw [if_neg none, spliceAll_cons, spliceAll_nil, splice_delete_clamped len inside small]
  | newline pos =>
      exact CursorCommand.plan_outcome (c := .newline pos) trivial small
        fun _ => ⟨rfl, withoutSpace_drop text pos⟩
  | heading level pos =>
      by_cases valid : 1 ≤ level ∧ level ≤ 3
      · rw [Edit.apply, if_pos valid]
        exact block (.heading level pos) valid rfl
      · have refused : level < 1 ∨ 3 < level := by omega
        rw [Edit.apply, if_neg valid, Edit.plan, if_pos refused]
        rfl
  | blockquote pos => exact block (.blockquote pos) trivial rfl
  | orderedList pos => exact block (.orderedList pos) trivial (withoutSpace_drop text pos)
  | unorderedList pos => exact block (.unorderedList pos) trivial rfl
  | horizontalRule pos => exact block (.horizontalRule pos) trivial rfl
  | bold start stop | italic start stop | code start stop => exact planRange_outcome ..
  | link start stop url =>
      cases url with
      | none => rfl
      | some url => exact planRange_outcome ..

end CollabMarkdown.Markdown
