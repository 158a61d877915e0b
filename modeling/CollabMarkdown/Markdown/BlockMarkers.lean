import CollabMarkdown.Markdown.CursorCommands
import CollabMarkdown.Markdown.Gaps

/-!
# Block markers under range commands

A block command puts its marker at the start of a line, breaking the line if it has
to.  A later range command whose range starts or ends at the cursor of the block
command puts a delimiter in front of everything pending there: in front of the line
break if there is one, and else between the start of the line and the marker.
-/

namespace CollabMarkdown.Markdown

open CollabMarkdown.CString
open CollabMarkdown.Sequence
open CollabMarkdown.Transition

/-! ## The gap of the cursor -/

/-- Items that read like the committed text up to the cursor, and the committed
positions that are carried there: the cursor, and the end of a dropped character. -/
structure AtCursor (text : Text) (pos : Nat) (dropped : Prop) (items : List AuthoredByte)
    (toGap : Nat → Nat) : Prop where
  front : items.take pos = (text.take pos).map (·, none)
  inItems : pos ≤ items.length
  committed : ∀ b ∈ items, b.2 = none
  carried : ∀ x, toGap x = pos ↔ x = pos ∨ dropped ∧ x = pos + 1

theorem atCursor_kept {text : Text} {pos : Nat} (inside : pos ≤ text.length) {dropped : Prop}
    (kept : ¬dropped) : AtCursor text pos dropped (text.map (·, none)) id where
  front := List.map_take.symm
  inItems := by simpa using inside
  committed b member := by
    obtain ⟨_, -, rfl⟩ := List.mem_map.mp member
    rfl
  carried x := by simp [kept]

theorem atCursor_dropped {text : Text} {pos : Nat} (inside : pos < text.length) {dropped : Prop}
    (drops : dropped) :
    AtCursor text pos dropped ((text.take pos ++ text.drop (pos + 1)).map (·, none))
      (fun x => if x ≤ pos then x else x - 1) where
  front := by
    rw [← List.map_take, List.take_left' (List.length_take_of_le (Nat.le_of_lt inside))]
  inItems := by
    rw [List.length_map, List.length_append, List.length_take_of_le (Nat.le_of_lt inside)]
    omega
  committed b member := by
    obtain ⟨_, -, rfl⟩ := List.mem_map.mp member
    rfl
  carried x := by
    simp only [drops, true_and]
    split <;> omega

/-- A deletion of one character has no position strictly inside. -/
theorem transformOp_delete_one {pos x : Nat} (fits : pos + 1 < sizeModulus) :
    transformOp x (.delete pos 1) = .ok (if x ≤ pos then x else x - 1) := by
  have clear : ¬(pos < x ∧ x < pos + 1) := by omega
  simp only [transformOp, sizeAdd_of_lt fits, if_neg clear]
  by_cases behind : pos < x
  · rw [if_pos behind, if_pos (by omega : pos + 1 ≤ x), if_neg (by omega : ¬x ≤ pos),
      sizeSub_of_le (by omega)]
  · rw [if_neg behind, if_pos (by omega : x ≤ pos)]

/-- The one deletion of a block command merges two gaps. -/
theorem inGaps_of_space {s : Store} (empty : s.pending = [])
    (small : s.committedText.length < sizeModulus) {pos : Nat}
    (inside : pos < s.committedText.length) :
    InGaps ((s.committedText.take pos ++ s.committedText.drop (pos + 1)).map (·, none))
      (fun x => if x ≤ pos then x else x - 1) (fun _ => []) (s.enqueue (.delete pos 1)) where
  sound := by
    rw [Store.Sound, Store.committedText_enqueue, Store.pending_enqueue, empty, List.nil_append]
    exact ⟨delete_one_inRange inside, trivial⟩
  text_eq := by
    have within : (Op.delete pos 1).Within (authored s.committedText []).length := by
      rw [length_authored]
      exact ⟨inside, by omega⟩
    rw [Store.committedText_enqueue, Store.pending_enqueue, empty, weave_nil, authored_concat]
    rw [Op.spliceItems_delete _ within, replaceRange, List.append_nil, List.map_append,
      List.map_take, List.map_drop]
    rfl
  moved q inText := by
    rw [Store.pending_enqueue, empty, List.nil_append, gapStart_nil, transformOps,
      transformOp_delete_one (by omega)]
    rfl
  inItems q inText := by
    rw [Store.committedText_enqueue] at inText
    rw [List.length_map, List.length_append, List.length_take_of_le (Nat.le_of_lt inside),
      List.length_drop]
    split <;> omega
  mono p q le := by
    split <;> split <;> omega

/-- The line break a block command inserts, as its operation number `count`. -/
def lineBreak (text : Text) (pos count : Nat) : List AuthoredByte :=
  if BreaksLine text pos then [(newline, some count)] else []

/-- The marker is inserted by another operation than its line break. -/
theorem author_lineBreak {text : Text} {pos count : Nat} {x : AuthoredByte}
    (member : x ∈ lineBreak text pos count) :
    x.2 ≠ some (count + (lineBreak text pos count).length) := by
  unfold lineBreak at member ⊢
  split at member
  · rw [List.mem_singleton.mp member]
    simp [*]
  · exact absurd member List.not_mem_nil

/-- A marker and its line break fill an empty gap. -/
theorem InGaps.block {items : List AuthoredByte} {toGap : Nat → Nat} {s : Store}
    (inGaps : InGaps items toGap (fun _ => []) s) {pos : Nat} (inItems : pos ≤ items.length)
    (text marker : Text) :
    let broken := lineBreak text pos s.pending.length
    let index := s.pending.length + broken.length
    (s.enqueueAll (blockOps text pos marker)).pending.length = index + 1 ∧
      InGaps items toGap (refill (fun _ => []) pos (broken ++ marker.map (·, some index)))
        (s.enqueueAll (blockOps text pos marker)) := by
  unfold lineBreak blockOps
  have first (data : Text) := inGaps.enqueue inItems (Nat.zero_le _) data
  simp only [gapStart_nil, Nat.add_zero, fillGap, replaceRange, List.take_nil, List.drop_nil,
    List.nil_append, List.append_nil] at first
  by_cases breaks : BreaksLine text pos
  · have second := (first [newline]).enqueue inItems (by simp : 1 ≤ _) marker
    rw [gapStart_refill_self, gapStart_nil, fillGap, refill_same, refill_refill,
      Store.pending_enqueue, List.length_append, List.length_singleton] at second
    have breaks' : 0 < pos ∧ byteAt text (pos - 1) ≠ newline := breaks
    rw [if_pos breaks, if_pos breaks']
    exact ⟨by simp, by simpa [replaceRange] using second⟩
  · have stays : ¬(0 < pos ∧ byteAt text (pos - 1) ≠ newline) := breaks
    rw [if_neg breaks, if_neg stays]
    exact ⟨by simp, first marker⟩

/-! ## Markers at the start of a line -/

/-- The bytes the operation `index` inserted are the marker in one piece, at the start
of the text or right behind a newline. -/
def MarkerStands (s : Store) (index : Nat) (marker : Text) : Prop :=
  ∃ before after,
    authored s.committedText s.pending = before ++ marker.map (·, some index) ++ after ∧
      (∀ b ∈ before ++ after, b.2 ≠ some index) ∧
      ∀ b, before.getLast? = some b → b.1 = newline

/-- What stands in front of a marker is what stands in front of its author's first
byte. -/
theorem takeWhile_before_marker {marker : Text} (nonempty : marker ≠ []) {index : Nat}
    (before after : List AuthoredByte) (other : ∀ b ∈ before, b.2 ≠ some index) :
    (before ++ marker.map (·, some index) ++ after).takeWhile (fun b => b.2 ≠ some index) =
      before := by
  obtain ⟨c, rest, rfl⟩ := List.exists_cons_of_ne_nil nonempty
  rw [List.append_assoc, List.takeWhile_append_of_pos (by simpa using other)]
  simp

theorem opening_getLast? (c : RangeCommand) : c.opening.getLast? ≠ some newline := by
  cases c <;> exact of_decide_eq_true rfl

theorem closing_getLast? (c : RangeCommand) : c.closing.getLast? ≠ some newline := by
  cases c with
  | bold _ _ | italic _ _ | code _ _ => exact of_decide_eq_true rfl
  | link _ _ url =>
      rw [RangeCommand.closing, List.getLast?_append]
      exact of_decide_eq_true rfl

/-- No delimiter ends with a newline. -/
theorem delimitersIn_getLast? (toGap : Nat → Nat) (k : Nat) (commands : List RangeCommand) :
    (commands.flatMap (·.delimitersIn toGap k)).getLast? ≠ some newline := by
  intro last
  rw [List.getLast?_flatMap] at last
  obtain ⟨c, -, last⟩ := List.exists_of_findSome?_eq_some last
  rw [RangeCommand.delimitersIn, List.getLast?_append, Option.or_eq_some_iff] at last
  rcases last with closed | ⟨-, opened⟩
  · split at closed
    · exact closing_getLast? c closed
    · contradiction
  · split at opened
    · exact opening_getLast? c opened
    · contradiction

theorem delimitersIn_eq_nil_iff (toGap : Nat → Nat) (k : Nat) (commands : List RangeCommand) :
    commands.flatMap (·.delimitersIn toGap k) = [] ↔
      ∀ c ∈ commands, toGap c.start ≠ k ∧ toGap c.stop ≠ k := by
  simp only [List.flatMap_eq_nil_iff, RangeCommand.delimitersIn, List.append_eq_nil_iff,
    ite_eq_right_iff, RangeCommand.opening_ne_nil, RangeCommand.closing_ne_nil, imp_false]

theorem markerStands_iff_lineStart {s : Store} {index : Nat} {marker : Text}
    (nonempty : marker ≠ []) {before after : List AuthoredByte}
    (text_eq : authored s.committedText s.pending =
      before ++ marker.map (·, some index) ++ after)
    (other : ∀ b ∈ before ++ after, b.2 ≠ some index) :
    MarkerStands s index marker ↔ ∀ b, before.getLast? = some b → b.1 = newline := by
  constructor
  · rintro ⟨before', after', text_eq', other', lineStart⟩
    rwa [← takeWhile_before_marker nonempty before after
        (fun b member => other b (List.mem_append_left _ member)), ← text_eq, text_eq',
      takeWhile_before_marker nonempty before' after'
        (fun b member => other' b (List.mem_append_left _ member))]
  · intro lineStart
    exact ⟨before, after, text_eq, other, lineStart⟩

/-- The bytes in front of a marker end with a newline if the block command broke the
line, or else if no delimiter was added there. -/
theorem lineStart_iff {text : Text} {pos count : Nat} (inside : pos ≤ text.length)
    {front added : List AuthoredByte}
    (front_eq : front.getLast? = ((text.take pos).map fun b => (b, none)).getLast?)
    (added_last : (added.map Prod.fst).getLast? ≠ some newline) :
    (∀ b, (front ++ added ++ lineBreak text pos count).getLast? = some b → b.1 = newline) ↔
      BreaksLine text pos ∨ added = [] := by
  unfold lineBreak
  by_cases breaks : BreaksLine text pos
  · simp [breaks]
  · rw [if_neg breaks, List.append_nil, List.getLast?_append, or_iff_right breaks]
    constructor
    · intro lineStart
      by_contra nonempty
      have last := List.getLast?_eq_some_getLast nonempty
      apply added_last
      rw [List.getLast?_map, last, Option.map_some, lineStart _ (by rw [last]; rfl)]
    · rintro rfl b last
      rw [List.getLast?_nil, Option.none_or, front_eq, List.getLast?_map,
        List.getLast?_take] at last
      obtain ⟨c, byte, rfl⟩ := Option.map_eq_some_iff.mp last
      split at byte
      · contradiction
      · rename_i positive
        have here : text[pos - 1]? = some text[pos - 1] := List.getElem?_eq_getElem (by omega)
        rw [here, Option.some_or] at byte
        obtain rfl := Option.some.inj byte
        by_contra other
        apply breaks
        refine ⟨by omega, ?_⟩
        rwa [byteAt, List.getD_eq_getElem?_getD, here]

/-- After a block command in a window of its own, the gap of the cursor holds the line
break, if one is needed, and the marker. -/
theorem blockStep_inGaps {s : Store} (empty : s.pending = [])
    (small : s.committedText.length < sizeModulus) {b : BlockCommand}
    (accepted : (blockStep s b).2 = .success) :
    ∃ items toGap count,
      let broken := lineBreak s.committedText b.pos count
      b.pos ≤ s.committedText.length ∧
        AtCursor s.committedText b.pos (b.DropsSpace s.committedText) items toGap ∧
        (blockStep s b).1.pending.length = count + broken.length + 1 ∧
        InGaps items toGap (refill (fun _ => []) b.pos
          (broken ++ b.marker.map (·, some (count + broken.length)))) (blockStep s b).1 := by
  have fresh := inGaps_of_pending_nil empty
  obtain ⟨inside, step⟩ := blockStep_accepted fresh.sound accepted
  rw [Store.workingText_of_pending_nil empty] at inside step
  by_cases drops : b.DropsSpace s.committedText
  · have cursor := atCursor_dropped drops.inside drops
    obtain ⟨length_eq, inGaps⟩ := (inGaps_of_space empty small drops.inside).block
      cursor.inItems s.committedText b.marker
    rw [if_pos drops, List.singleton_append, Store.enqueueAll_cons] at step
    exact ⟨_, _, _, inside, cursor, step ▸ length_eq, step ▸ inGaps⟩
  · have cursor := atCursor_kept inside drops
    obtain ⟨length_eq, inGaps⟩ := fresh.block cursor.inItems s.committedText b.marker
    rw [if_neg drops, List.nil_append] at step
    exact ⟨_, _, _, inside, cursor, step ▸ length_eq, step ▸ inGaps⟩

/-- In a window of one block command and range commands behind it, all accepted, the
marker still stands at the start of a line exactly if the block command broke the
line, or no range starts or ends at its cursor or behind the space it dropped
there. -/
theorem markerStands_iff (s : Store) (empty : s.pending = [])
    (small : s.committedText.length < sizeModulus) (b : BlockCommand)
    (accepted : (blockStep s b).2 = .success) (commands : List RangeCommand)
    (formatted : ∀ r ∈ (run formatStep (blockStep s b).1 commands).2, r = .success) :
    MarkerStands (run formatStep (blockStep s b).1 commands).1
        ((blockStep s b).1.pending.length - 1) b.marker ↔
      BreaksLine s.committedText b.pos ∨
        ∀ c ∈ commands, ∀ x, x = c.start ∨ x = c.stop →
          x ≠ b.pos ∧ ¬(b.DropsSpace s.committedText ∧ x = b.pos + 1) := by
  obtain ⟨items, toGap, count, inside, cursor, length_eq, block⟩ :=
    blockStep_inGaps empty small accepted
  obtain ⟨-, added, last, texts, authors⟩ := block.run (block.valid_of_accepted formatted)
  obtain ⟨front, back, -, front_last, members, whole⟩ :=
    exists_weave_refill _ cursor.inItems
  have text_eq := last.text_eq.trans ((congrArg (weave · items) refill_self.symm).trans (whole _))
  rw [refill_same] at text_eq
  have later {k : Nat} {x : AuthoredByte} (member : x ∈ added k) :
      x.2 ≠ some (count + (lineBreak s.committedText b.pos count).length) := by
    obtain ⟨j, author, behind⟩ := authors k x member
    rw [author, length_eq] at *
    simp
    omega
  have outside {x : AuthoredByte} (member : x ∈ front ++ back) :
      x.2 ≠ some (count + (lineBreak s.committedText b.pos count).length) := by
    rcases members x member with committed | ⟨k, other, filling⟩
    · simp [cursor.committed x committed]
    · rw [refill_other other, List.append_nil] at filling
      exact later filling
  have others : ∀ x ∈ (front ++ added b.pos ++ lineBreak s.committedText b.pos count) ++ back,
      x.2 ≠ some (count + (lineBreak s.committedText b.pos count).length) := by
    intro x member
    simp only [List.mem_append] at member
    rcases member with ((inFront | own) | broken) | inBack
    · exact outside (List.mem_append_left _ inFront)
    · exact later own
    · exact author_lineBreak broken
    · exact outside (List.mem_append_right _ inBack)
  have added_last : ((added b.pos).map Prod.fst).getLast? ≠ some newline := by
    rw [texts]
    exact delimitersIn_getLast? _ _ _
  rw [length_eq, Nat.add_sub_cancel,
    markerStands_iff_lineStart b.marker_ne_nil (by rw [text_eq]; simp) others,
    lineStart_iff inside (by rw [front_last, cursor.front]) added_last, ← List.map_eq_nil_iff,
    texts, delimitersIn_eq_nil_iff]
  simp only [List.mem_reverse, ne_eq, cursor.carried]
  apply or_congr_right
  constructor
  · rintro clear c member x (rfl | rfl)
    · exact not_or.mp (clear c member).1
    · exact not_or.mp (clear c member).2
  · intro clear c member
    exact ⟨not_or.mpr (clear c member _ (.inl rfl)), not_or.mpr (clear c member _ (.inr rfl))⟩

/-- A heading with its line broken off, made bold from its first character on. -/
theorem markerStands_iff_heading :
    let s := (run editStep (Store.fresh 1 ⟨[], rfl⟩)
      [.edit 0 (.insert 0 (some (ascii "a title"))), .increment]).1
    MarkerStands (run formatStep (blockStep s (.heading 1 2)).1 [.bold 2 7]).1
        ((blockStep s (.heading 1 2)).1.pending.length - 1) (BlockCommand.heading 1 2).marker ↔
      BreaksLine s.committedText 2 ∨
        ∀ c ∈ [RangeCommand.bold 2 7], ∀ x, x = c.start ∨ x = c.stop →
          x ≠ 2 ∧ ¬((BlockCommand.heading 1 2).DropsSpace s.committedText ∧ x = 2 + 1) :=
  markerStands_iff
    (run editStep (Store.fresh 1 ⟨[], rfl⟩)
      [.edit 0 (.insert 0 (some (ascii "a title"))), .increment]).1
    (by decide) (by decide) (.heading 1 2) (by decide) [.bold 2 7] (by decide)

/-- A heading in the first line, made bold from its first character on. -/
theorem heading_dislodged :
    let s := (run editStep (Store.fresh 1 ⟨[], rfl⟩)
      [.edit 0 (.insert 0 (some (ascii "title"))), .increment]).1
    let t := (run formatStep (blockStep s (.heading 1 0)).1 [.bold 0 5])
    (blockStep s (.heading 1 0)).2 = .success ∧ t.2 = [.success] ∧
      t.1.workingText = ascii "**# title**" ∧
      ¬MarkerStands t.1 ((blockStep s (.heading 1 0)).1.pending.length - 1) (ascii "# ") := by
  refine ⟨by decide, by decide, by decide, ?_⟩
  rintro ⟨before, after, text_eq, other, lineStart⟩
  have front := takeWhile_before_marker (by decide : ascii "# " ≠ []) before after
    fun b member => other b (List.mem_append_left _ member)
  rw [← text_eq] at front
  have last : before.getLast? = some (42, some 2) := by
    rw [← front]
    decide
  exact absurd (lineStart _ last) (by decide)

end CollabMarkdown.Markdown
