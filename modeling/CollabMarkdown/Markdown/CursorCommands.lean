import CollabMarkdown.Markdown.Session

/-!
# Commands at a cursor

Seven commands insert text at a cursor of the working text: content, a line break, or
a block marker at the start of a line.  They enqueue up to three operations, each at a
position of the text the one before leaves.  Together they put one piece of text at the
cursor, and at most drop a space behind it.
-/

namespace CollabMarkdown.Markdown

open CollabMarkdown.CString
open CollabMarkdown.Transition

/-! ## Block commands -/

/-- The commands that put a marker at the start of a line. -/
inductive BlockCommand where
  | heading (level pos : Nat)
  | blockquote (pos : Nat)
  | orderedList (pos : Nat)
  | unorderedList (pos : Nat)
  | horizontalRule (pos : Nat)
  deriving DecidableEq, Repr

namespace BlockCommand

/-- The call that a block command makes. -/
def toEdit : BlockCommand → Edit
  | heading level pos => .heading level pos
  | blockquote pos => .blockquote pos
  | orderedList pos => .orderedList pos
  | unorderedList pos => .unorderedList pos
  | horizontalRule pos => .horizontalRule pos

/-- The position a block command is given. -/
def pos : BlockCommand → Nat
  | heading _ pos | blockquote pos | orderedList pos | unorderedList pos | horizontalRule pos => pos

/-- What a block command puts in front of the line. -/
def marker : BlockCommand → Text
  | heading level _ => headingTag level
  | blockquote _ => ascii "> "
  | orderedList _ => ascii "1. "
  | unorderedList _ => ascii "- "
  | horizontalRule _ => ascii "---\n"

/-- The level of a heading has to be one, two or three. -/
def Valid : BlockCommand → Prop
  | heading level _ => 1 ≤ level ∧ level ≤ 3
  | _ => True

instance Valid.decidable : (b : BlockCommand) → Decidable b.Valid
  | heading _ _ => inferInstanceAs (Decidable (_ ∧ _))
  | blockquote _ | orderedList _ | unorderedList _ | horizontalRule _ => isTrue trivial

/-- Whether the command drops the character at its cursor: an ordered list drops a
space. -/
def DropsSpace (text : Text) : BlockCommand → Prop
  | orderedList pos => pos < text.length ∧ byteAt text pos = space
  | _ => False

instance DropsSpace.decidable (text : Text) : (b : BlockCommand) → Decidable (b.DropsSpace text)
  | orderedList _ => inferInstanceAs (Decidable (_ ∧ _))
  | heading _ _ | blockquote _ | unorderedList _ | horizontalRule _ => isFalse id

theorem DropsSpace.inside {text : Text} {b : BlockCommand} (drops : b.DropsSpace text) :
    b.pos < text.length := by
  cases b with
  | orderedList pos => exact drops.1
  | heading _ _ | blockquote _ | unorderedList _ | horizontalRule _ => exact False.elim drops

theorem marker_ne_nil (b : BlockCommand) : b.marker ≠ [] := by
  cases b <;> simp [marker, headingTag, ascii]

theorem plan_toEdit (b : BlockCommand) (committed : Text) (pending : List Op) :
    b.toEdit.plan committed pending =
      if b.Valid then
        planAt (spliceAll committed pending) b.pos <|
          (if b.DropsSpace (spliceAll committed pending) then [.delete b.pos 1] else []) ++
            blockOps (spliceAll committed pending) b.pos b.marker
      else
        .error .invalidCursorPos := by
  cases b with
  | heading level pos =>
      have keeps : ¬(heading level pos).DropsSpace (spliceAll committed pending) := id
      rw [if_neg keeps, toEdit, Edit.plan]
      by_cases valid : (heading level pos).Valid
      · have accepted : ¬(level < 1 ∨ 3 < level) := by
          obtain ⟨low, high⟩ := valid
          omega
        rw [if_pos valid, if_neg accepted]
        rfl
      · have refused : level < 1 ∨ 3 < level := by
          unfold Valid at valid
          omega
        rw [if_neg valid, if_pos refused]
  | orderedList pos =>
      simp only [toEdit, Edit.plan, dropSpaceOps]
      rfl
  | blockquote pos | unorderedList pos | horizontalRule pos => rfl

end BlockCommand

/-- A block command at the current version. -/
def blockStep (s : Store) (b : BlockCommand) : Store × MarkdownResult :=
  let out := Id.run (b.toEdit.run s s.version)
  (out.2, out.1)

/-- An accepted block command has its cursor in the text and enqueues its marker. -/
theorem blockStep_accepted {s : Store} (sound : s.Sound) {b : BlockCommand}
    (accepted : (blockStep s b).2 = .success) :
    b.pos ≤ s.workingText.length ∧
      (blockStep s b).1 = s.enqueueAll
        ((if b.DropsSpace s.workingText then [.delete b.pos 1] else []) ++
          blockOps s.workingText b.pos b.marker) := by
  rw [blockStep, b.toEdit.run_eq sound, b.plan_toEdit] at accepted ⊢
  by_cases valid : b.Valid
  · rw [if_pos valid, planAt] at accepted ⊢
    by_cases outside : (spliceAll s.committedText s.pending).length < b.pos
    · rw [if_pos outside] at accepted
      contradiction
    · rw [if_neg outside]
      exact ⟨Nat.le_of_not_lt outside, rfl⟩
  · rw [if_neg valid] at accepted
    contradiction

/-- The line has to be broken in front of the cursor. -/
def BreaksLine (text : Text) (pos : Nat) : Prop :=
  0 < pos ∧ byteAt text (pos - 1) ≠ newline

instance (text : Text) (pos : Nat) : Decidable (BreaksLine text pos) :=
  inferInstanceAs (Decidable (_ ∧ _))

/-! ## The effect on the working text -/

/-- The text without a space it starts with. -/
def withoutSpace (text : Text) : Text :=
  if text.head? = some space then text.tail else text

/-- A command that inserts text at a cursor. -/
inductive CursorCommand where
  | insert (pos : Nat) (content : Option Text)
  | newline (pos : Nat)
  | block (b : BlockCommand)
  deriving DecidableEq, Repr

namespace CursorCommand

/-- The call that a cursor command makes. -/
def toEdit : CursorCommand → Edit
  | insert pos content => .insert pos content
  | newline pos => .newline pos
  | block b => b.toEdit

/-- The position a cursor command is given. -/
def pos : CursorCommand → Nat
  | insert pos _ | newline pos => pos
  | block b => b.pos

/-- The arguments besides the position are in range. -/
def Valid : CursorCommand → Prop
  | block b => b.Valid
  | _ => True

/-- What the command puts at its cursor. -/
def inserted (working : Text) : CursorCommand → Text
  | insert _ content => content.getD []
  | newline _ => [CString.newline]
  | block b => (if BreaksLine working b.pos then [CString.newline] else []) ++ b.marker

/-- What it leaves of the text behind its cursor. -/
def kept (working : Text) : CursorCommand → Text
  | newline pos | block (.orderedList pos) => withoutSpace (working.drop pos)
  | insert pos _ => working.drop pos
  | block b => working.drop b.pos

end CursorCommand

/-- Dropping the space at the cursor. -/
theorem spliceAll_dropSpaceOps {text : Text} (small : text.length < sizeModulus) (pos : Nat) :
    spliceAll text (dropSpaceOps text pos) = text.take pos ++ withoutSpace (text.drop pos) := by
  unfold dropSpaceOps withoutSpace
  rw [List.head?_drop]
  by_cases atSpace : pos < text.length ∧ byteAt text pos = space
  · have here : text[pos]? = some space := by
      rw [← atSpace.2, byteAt, List.getD_eq_getElem?_getD, List.getElem?_eq_getElem atSpace.1]
      rfl
    rw [if_pos atSpace, if_pos here, spliceAll_cons, spliceAll_nil,
      splice_delete (delete_one_inRange atSpace.1), sizeAdd_of_lt (by omega), List.tail_drop]
  · have other : ¬text[pos]? = some space := by
      intro here
      obtain ⟨bound, byte⟩ := List.getElem?_eq_some_iff.mp here
      apply atSpace
      rw [byteAt, List.getD_eq_getElem?_getD, here]
      exact ⟨bound, rfl⟩
    rw [if_neg atSpace, if_neg other, spliceAll_nil, List.take_append_drop]

/-- A marker with its line break. -/
theorem spliceAll_blockOps {text : Text} {pos : Nat} (inside : pos ≤ text.length)
    (working marker : Text) :
    spliceAll text (blockOps working pos marker) =
      text.take pos ++ ((if BreaksLine working pos then [newline] else []) ++ marker) ++
        text.drop pos := by
  have front : (text.take pos).length = pos := List.length_take_of_le inside
  unfold blockOps
  by_cases breaks : BreaksLine working pos
  · have breaks' : 0 < pos ∧ byteAt working (pos - 1) ≠ newline := breaks
    have broken : (text.take pos ++ [newline]).length = pos + 1 := by
      rw [List.length_append, front]
      rfl
    rw [if_pos breaks', if_pos breaks, spliceAll_cons, spliceAll_cons, spliceAll_nil,
      splice_insert, splice_insert, List.take_left' broken, List.drop_left' broken,
      ← List.append_assoc]
  · have stays : ¬(0 < pos ∧ byteAt working (pos - 1) ≠ newline) := breaks
    rw [if_neg stays, if_neg breaks, spliceAll_cons, spliceAll_nil, splice_insert, List.nil_append]

namespace CursorCommand

/-- The operations of a command, behind its check of the cursor. -/
def ops (working : Text) : CursorCommand → List Op
  | insert pos content => [.insert pos (content.getD [])]
  | newline pos => dropSpaceOps working pos ++ [.insert pos [CString.newline]]
  | block b =>
      (if b.DropsSpace working then [.delete b.pos 1] else []) ++ blockOps working b.pos b.marker

theorem plan_toEdit {c : CursorCommand} (valid : c.Valid) (committed : Text)
    (pending : List Op) :
    c.toEdit.plan committed pending =
      planAt (spliceAll committed pending) c.pos (c.ops (spliceAll committed pending)) := by
  cases c with
  | insert pos content | newline pos => rfl
  | block b => exact (b.plan_toEdit committed pending).trans (if_pos valid)

/-- Together the operations insert one piece of text and keep the rest. -/
theorem spliceAll_ops {working : Text} (small : working.length < sizeModulus) (c : CursorCommand)
    (inside : c.pos ≤ working.length) :
    spliceAll working (c.ops working) =
      working.take c.pos ++ c.inserted working ++ c.kept working := by
  have front : (working.take c.pos).length = c.pos := List.length_take_of_le inside
  -- the commands that look for a space put their text between the two parts
  have behindSpace (x : Text) (rest : List Op)
      (placed : ∀ text : Text, c.pos ≤ text.length →
        spliceAll text rest = text.take c.pos ++ x ++ text.drop c.pos) :
      spliceAll working (dropSpaceOps working c.pos ++ rest) =
        working.take c.pos ++ x ++ withoutSpace (working.drop c.pos) := by
    rw [spliceAll_append, spliceAll_dropSpaceOps small,
      placed _ (by rw [List.length_append]; omega),
      List.take_left' front, List.drop_left' front]
  cases c with
  | insert pos content => simp only [ops, spliceAll_cons, spliceAll_nil, splice_insert]; rfl
  | newline pos =>
      exact behindSpace _ _ fun text _ => by rw [spliceAll_cons, spliceAll_nil, splice_insert]; rfl
  | block b =>
      have marked (text : Text) (inText : b.pos ≤ text.length) :=
        spliceAll_blockOps inText working b.marker
      cases b with
      | orderedList pos => exact behindSpace _ _ marked
      | heading _ _ | blockquote _ | unorderedList _ | horizontalRule _ =>
          exact marked working inside

end CursorCommand

/-- In every reachable document, a command at a cursor is rejected exactly beyond the
end of the working text, and else puts its text at the cursor, keeps what is in front
and what is behind, and leaves the committed text alone. -/
theorem cursorCommand_effect (addr : DocAddr) (others : OtherOps addr) (steps : List EditStep)
    (small : (run editStep (Store.fresh addr others) steps).1.workingText.length < sizeModulus)
    (c : CursorCommand) (valid : c.Valid) :
    let s := (run editStep (Store.fresh addr others) steps).1
    let w := s.workingText
    let out := Id.run (c.toEdit.run s s.version)
    (w.length < c.pos → out = (.invalidCursorPos, s)) ∧
      (c.pos ≤ w.length → out.1 = .success ∧
        out.2.workingText = w.take c.pos ++ c.inserted w ++ c.kept w ∧
        out.2.committedText = s.committedText) := by
  intro s w out
  have wellFormed : s.WellFormed :=
    run_invariant editStep Store.WellFormed editStep_wellFormed
      (Store.wellFormed_fresh addr others) steps
  have planned : c.toEdit.plan s.committedText s.pending = planAt w c.pos (c.ops w) :=
    CursorCommand.plan_toEdit valid _ _
  have out_eq : out = s.follow (planAt w c.pos (c.ops w)) := by
    rw [← planned]
    exact c.toEdit.run_eq wellFormed.sound
  constructor
  · intro outside
    rw [out_eq, planAt, if_pos outside]
    rfl
  · intro inside
    rw [out_eq, planAt, if_neg (Nat.not_lt.mpr inside)]
    refine ⟨rfl, ?_, Store.committedText_enqueueAll _ _⟩
    rw [Store.follow, Store.workingText_enqueueAll, c.spliceAll_ops small inside]

/-- An ordered list at a space in the middle of a line. -/
theorem cursorCommand_effect_orderedList :
    let s := (run editStep (Store.fresh 1 ⟨[], rfl⟩)
      [.edit 0 (.insert 0 (some (ascii "to do"))), .increment, .edit 1 (.delete 0 1)]).1
    let w := s.workingText
    let c := CursorCommand.block (.orderedList 1)
    let out := Id.run (c.toEdit.run s s.version)
    out.1 = .success ∧ out.2.workingText = w.take c.pos ++ c.inserted w ++ c.kept w ∧
      out.2.committedText = s.committedText :=
  (cursorCommand_effect 1 ⟨[], rfl⟩
    [.edit 0 (.insert 0 (some (ascii "to do"))), .increment, .edit 1 (.delete 0 1)]
    (by decide) (.block (.orderedList 1)) trivial).2 (by decide)

end CollabMarkdown.Markdown
