import Mathlib.Data.List.Destutter
import Mathlib.Data.List.Induction
import Mathlib.Data.List.Sort
import CollabMarkdown.Markdown.Session
import CollabMarkdown.Sequence.Bracket
import CollabMarkdown.Sequence.Ranked

/-!
# Nesting of range markup

BOLD, ITALIC, CODE and LINK commands of one version window, on committed ranges.
Every byte of the working text is tagged with its origin: a byte of the
committed text, or the opening or closing delimiter of a command.  The working
text is sorted by the committed place of its bytes, and delimiters at the same
place stand in reverse order of submission.  So whether delimiters cross is
decided by the committed ranges and their order alone.
-/

namespace CollabMarkdown.Markdown

open CollabMarkdown.CString
open CollabMarkdown.Sequence
open CollabMarkdown.Transition

/-! ## Range commands -/

/-- The commands that enclose a range in delimiters. -/
inductive RangeCommand where
  | bold (start stop : Nat)
  | italic (start stop : Nat)
  | code (start stop : Nat)
  | link (start stop : Nat) (url : Text)
  deriving DecidableEq, Repr

namespace RangeCommand

/-- The call that a range command makes. -/
def toEdit : RangeCommand → Edit
  | bold start stop => .bold start stop
  | italic start stop => .italic start stop
  | code start stop => .code start stop
  | link start stop url => .link start stop (some url)

/-- The position of the first character enclosed. -/
def start : RangeCommand → Nat
  | bold start _ | italic start _ | code start _ | link start _ _ => start

/-- The position behind the last character enclosed. -/
def stop : RangeCommand → Nat
  | bold _ stop | italic _ stop | code _ stop | link _ stop _ => stop

/-- The delimiter put in front of the range. -/
def opening : RangeCommand → Text
  | bold _ _ => ascii "**"
  | italic _ _ => ascii "*"
  | code _ _ => ascii "`"
  | link _ _ _ => ascii "["

/-- The delimiter put behind the range. -/
def closing : RangeCommand → Text
  | bold _ _ => ascii "**"
  | italic _ _ => ascii "*"
  | code _ _ => ascii "`"
  | link _ _ url => ascii "](" ++ url ++ ascii ")"

theorem opening_ne_nil (c : RangeCommand) : c.opening ≠ [] := by
  cases c <;> simp [opening, ascii]

theorem closing_ne_nil (c : RangeCommand) : c.closing ≠ [] := by
  cases c <;> simp [closing, ascii]

theorem plan_toEdit (c : RangeCommand) (committed : Text) (pending : List Op) :
    c.toEdit.plan committed pending =
      planRange committed pending c.start c.stop c.opening c.closing := by
  cases c <;> rfl

/-- The ranges of two commands are disjoint, possibly touching, or nested, possibly
identical. -/
def Laminar (c d : RangeCommand) : Prop :=
  c.stop ≤ d.start ∨ d.stop ≤ c.start ∨ (c.start ≤ d.start ∧ d.stop ≤ c.stop) ∨
    (d.start ≤ c.start ∧ c.stop ≤ d.stop)

/-- A later command starts where an earlier one ends, or shares one end with it
without reaching beyond its other end. -/
def Clashes (earlier later : RangeCommand) : Prop :=
  later.start = earlier.stop ∨
    (later.start = earlier.start ∧ later.stop ≤ earlier.stop) ∨
    (later.stop = earlier.stop ∧ later.start ≤ earlier.start)

instance (c d : RangeCommand) : Decidable (Laminar c d) :=
  inferInstanceAs (Decidable (_ ∨ _))

instance (earlier later : RangeCommand) : Decidable (Clashes earlier later) :=
  inferInstanceAs (Decidable (_ ∨ _))

end RangeCommand

/-- A range command at the current version. -/
def formatStep (s : Store) (c : RangeCommand) : Store × MarkdownResult :=
  let out := Id.run (c.toEdit.run s s.version)
  (out.2, out.1)

/-- A range that is empty or beyond the committed text is refused. -/
theorem formatStep_invalid {s : Store} (sound : s.Sound) {c : RangeCommand}
    (invalid : c.stop ≤ c.start ∨ s.committedText.length < c.stop) :
    formatStep s c = (s, .invalidCursorPos) := by
  rw [formatStep, c.toEdit.run_eq sound, c.plan_toEdit, planRange, if_pos invalid]
  rfl

/-- In the committed text, one end was deleted, or both delimiters go to the
transformed ends. -/
theorem formatStep_cases {s : Store} (sound : s.Sound) {c : RangeCommand}
    (ordered : c.start < c.stop) (inText : c.stop ≤ s.committedText.length) :
    ((transformOps s.pending c.start = .error .deletedPosition ∨
        transformOps s.pending c.stop = .error .deletedPosition) ∧
      formatStep s c = (s, .deletedPosition)) ∨
    ∃ adjustedStart adjustedEnd,
      transformOps s.pending c.start = .ok adjustedStart ∧
      transformOps s.pending c.stop = .ok adjustedEnd ∧
      formatStep s c =
        (s.enqueueAll [.insert adjustedEnd c.closing, .insert adjustedStart c.opening],
          .success) := by
  have valid : ¬(c.stop ≤ c.start ∨ s.committedText.length < c.stop) := by omega
  rw [formatStep, c.toEdit.run_eq sound, c.plan_toEdit, planRange, if_neg valid]
  cases startMoved : transformOps s.pending c.start with
  | error r =>
      obtain rfl := transformOps_error startMoved
      exact .inl ⟨.inl rfl, rfl⟩
  | ok adjustedStart =>
      cases stopMoved : transformOps s.pending c.stop with
      | error r =>
          obtain rfl := transformOps_error stopMoved
          exact .inl ⟨.inr rfl, rfl⟩
      | ok adjustedEnd => exact .inr ⟨adjustedStart, adjustedEnd, rfl, rfl, rfl⟩

/-! ## Origins -/

/-- Where a byte of the working text comes from: a place in the committed text, or
a delimiter of a command, named by the command's place in the window. -/
inductive Origin where
  | committed (k : Nat)
  | delimiter (bracket : Bracket Nat)
  deriving DecidableEq, Repr

/-- `Op.splice` on tagged bytes, inserted ones receiving the given origin. -/
def Op.spliceTagged (origin : Origin) (text : List (Byte × Origin)) :
    Op → List (Byte × Origin)
  | .insert pos data =>
      let pos := clampPos text.length pos
      text.take pos ++ data.map (·, origin) ++ text.drop pos
  | .delete pos len =>
      let pos := clampPos text.length pos
      let len := clampLen text.length pos len
      text.take pos ++ text.drop (sizeAdd pos len)

/-- The delimiter that the `k`-th operation of a window of range commands inserts:
each command enqueues its closing delimiter, then its opening one. -/
def delimiterOf (k : Nat) : Bracket Nat :=
  if k % 2 = 0 then .closing (k / 2) else .opening (k / 2)

/-- The working text with every byte tagged. -/
def taggedText (committed : Text) (ops : List Op) : List (Byte × Origin) :=
  ops.zipIdx.foldl (fun text op => op.1.spliceTagged (.delimiter (delimiterOf op.2)) text)
    (committed.zipIdx.map fun c => (c.1, .committed c.2))

/-- The delimiter that a byte belongs to, if any. -/
def Origin.bracket? : Origin → Option (Bracket Nat)
  | .committed _ => none
  | .delimiter bracket => some bracket

/-- The delimiters of a tagged text in order, each run of bytes of one delimiter as
one bracket. -/
def delimiters (text : List (Byte × Origin)) : List (Bracket Nat) :=
  (text.filterMap (·.2.bracket?)).destutter (· ≠ ·)

theorem taggedText_concat (committed : Text) (ops : List Op) (op : Op) :
    taggedText committed (ops ++ [op]) =
      op.spliceTagged (.delimiter (delimiterOf ops.length)) (taggedText committed ops) := by
  simp [taggedText, List.zipIdx_append]

theorem map_fst_spliceTagged (origin : Origin) (text : List (Byte × Origin)) (op : Op) :
    (op.spliceTagged origin text).map Prod.fst = op.splice (text.map Prod.fst) := by
  cases op <;> simp [Op.spliceTagged, Op.splice, List.map_take, List.map_drop, Function.comp_def]

/-- Without the tags it is the working text. -/
theorem map_fst_taggedText (committed : Text) (ops : List Op) :
    (taggedText committed ops).map Prod.fst = spliceAll committed ops := by
  induction ops using List.reverseRecOn with
  | nil => simp [taggedText, Function.comp_def, List.zipIdx_map_fst]
  | append_singleton ops op ih =>
      rw [taggedText_concat, map_fst_spliceTagged, ih, spliceAll_append]
      rfl

theorem map_snd_spliceTagged_insert (origin : Origin) (text : List (Byte × Origin)) (pos : Nat)
    (data : Text) :
    ((Op.insert pos data).spliceTagged origin text).map Prod.snd =
      replaceRange (text.map Prod.snd) pos pos (List.replicate data.length origin) := by
  simp only [Op.spliceTagged, replaceRange, clampPos, List.map_append, List.map_take,
    List.map_drop, List.map_map, Function.comp_def, List.map_const']
  split
  case isTrue beyond =>
    have past : (text.map Prod.snd).length ≤ pos := by simpa using beyond.le
    rw [List.take_of_length_le (by simp), List.drop_of_length_le (by simp),
      List.take_of_length_le past, List.drop_of_length_le past]
  case isFalse => rfl

/-! ## The order of the working text -/

section Order

variable (gap : Bracket Nat → Nat)

/-- The place of an origin: the bytes of the committed text at the odd numbers, the
gaps between them at the even ones. -/
def Origin.place : Origin → Nat
  | .committed k => 2 * k + 1
  | .delimiter bracket => 2 * gap bracket

/-- Delimiters by gap, and in one gap the later command first. -/
def Before (first second : Bracket Nat) : Prop :=
  gap first < gap second ∨ (gap first = gap second ∧ second.name < first.name)

/-- The order of the working text, up to bytes of one origin. -/
def Origin.Ordered (first second : Origin) : Prop :=
  first.place gap < second.place gap ∨ first = second ∨
    ∃ b b', first = .delimiter b ∧ second = .delimiter b' ∧ Before gap b b'

end Order

variable {gap : Bracket Nat → Nat}

theorem Origin.Ordered.place_le {first second : Origin}
    (ordered : Origin.Ordered gap first second) : first.place gap ≤ second.place gap := by
  rcases ordered with before | rfl | ⟨b, b', rfl, rfl, before⟩
  · exact before.le
  · exact Nat.le_refl _
  · simp only [Origin.place]
    rcases before with before | ⟨same, -⟩ <;> omega

/-- A working text of `n` committed bytes into which the seen delimiters were
inserted: it is in order, positions of the committed text are carried to ranks,
and nothing was lost. -/
structure Woven (gap : Bracket Nat → Nat) (n : Nat) (seen : Bracket Nat → Prop) (ops : List Op)
    (origins : List Origin) : Prop where
  ordered : origins.Pairwise (Origin.Ordered gap)
  moved : ∀ p ≤ n, transformOps ops p = .ok (rank (Origin.place gap) origins (2 * p))
  letters : ∀ k < n, .committed k ∈ origins
  marked : ∀ b, .delimiter b ∈ origins ↔ seen b

theorem transformOps_concat (ops : List Op) (op : Op) (p : Nat) :
    transformOps (ops ++ [op]) p = (transformOps ops p).bind fun q => transformOp q op := by
  induction ops generalizing p with
  | nil => cases moved : transformOp p op <;> simp [transformOps, moved, Except.bind]
  | cons first rest ih =>
      cases moved : transformOp p first <;> simp [transformOps, moved, Except.bind, ih]

namespace Woven

variable {n : Nat} {seen : Bracket Nat → Prop} {ops : List Op} {origins : List Origin}

/-- Gaps of the committed text are told apart by the byte between them. -/
theorem rank_lt_iff (woven : Woven gap n seen ops origins) (p : Nat) {q : Nat} (inText : q ≤ n) :
    rank (Origin.place gap) origins (2 * p) < rank (Origin.place gap) origins (2 * q) ↔ p < q := by
  constructor
  · intro below
    by_contra notBelow
    have : rank (Origin.place gap) origins (2 * q) ≤ rank (Origin.place gap) origins (2 * p) :=
      rank_mono (by omega)
    omega
  · intro below
    apply rank_lt (woven.letters p (by omega))
    · simp only [Origin.place]
      omega
    · simp only [Origin.place]
      omega

/-- A delimiter newer than those of its gap, inserted where its gap was carried
to. -/
theorem insert (woven : Woven gap n seen ops origins) (bracket : Bracket Nat) {data : Text}
    (nonempty : data ≠ [])
    (newest : ∀ b, seen b → gap b = gap bracket → b.name < bracket.name) {pos : Nat}
    (pos_eq : pos = rank (Origin.place gap) origins (2 * gap bracket)) :
    Woven gap n (fun b => b = bracket ∨ seen b) (ops ++ [.insert pos data])
      (replaceRange origins pos pos (List.replicate data.length (.delimiter bracket))) where
  ordered := by
    subst pos_eq
    apply pairwise_insert_at_rank (fun _ _ ordered => ordered.place_le) woven.ordered
    · exact List.pairwise_replicate.mpr (.inr (.inr (.inl rfl)))
    · intro item _ before new isNew
      rw [List.eq_of_mem_replicate isNew]
      exact .inl before
    · intro item inside notBefore new isNew
      rw [List.eq_of_mem_replicate isNew]
      cases item with
      | committed k =>
          left
          simp only [Origin.place] at notBefore ⊢
          omega
      | delimiter b =>
          simp only [Origin.place] at notBefore
          rcases Nat.lt_or_eq_of_le (Nat.le_of_mul_le_mul_left notBefore (by decide : 0 < 2)) with
            before | same
          · left
            simp only [Origin.place]
            omega
          · right
            right
            have older := newest b ((woven.marked b).mp inside) same.symm
            exact ⟨bracket, b, rfl, rfl, .inr ⟨same, older⟩⟩
  moved p inside := by
    -- the insertion counts for a position exactly when its gap lies before it
    have shifted := woven.rank_lt_iff (gap bracket) inside
    rw [← pos_eq] at shifted
    rw [transformOps_concat, woven.moved p inside, rank_replaceRange_insert]
    by_cases before : gap bracket < p
    · have new : rank (Origin.place gap) (List.replicate data.length (.delimiter bracket)) (2 * p) =
          data.length := by
        simp [rank, Origin.place, List.countP_replicate, before]
      simp [Except.bind, transformOp, shifted.mpr before, new]
    · have new : rank (Origin.place gap) (List.replicate data.length (.delimiter bracket)) (2 * p) =
          0 := by
        simp [rank, Origin.place, List.countP_replicate, before]
      simp [Except.bind, transformOp, mt shifted.mp before, new]
  letters k below := mem_replaceRange_insert.mpr (.inl (woven.letters k below))
  marked b := by
    have inserted : 0 < data.length := List.length_pos_of_ne_nil nonempty
    rw [mem_replaceRange_insert, woven.marked, List.mem_replicate, Origin.delimiter.injEq, or_comm,
      and_iff_right (by omega)]

theorem seen_congr (woven : Woven gap n seen ops origins) {seen' : Bracket Nat → Prop}
    (same : ∀ b, seen b ↔ seen' b) : Woven gap n seen' ops origins :=
  ⟨woven.ordered, woven.moved, woven.letters, fun b => (woven.marked b).trans (same b)⟩

/-- A range command inserts its closing delimiter, then its opening one, each where
its gap was carried to. -/
theorem format (woven : Woven gap n seen ops origins) {count : Nat} {c : RangeCommand}
    (start_eq : gap (.opening count) = c.start) (stop_eq : gap (.closing count) = c.stop)
    (newest : ∀ b, seen b → b.name < count) (ordered : c.start < c.stop)
    {adjustedStart adjustedEnd : Nat}
    (start_moved : adjustedStart = rank (Origin.place gap) origins (2 * c.start))
    (end_moved : adjustedEnd = rank (Origin.place gap) origins (2 * c.stop)) :
    Woven gap n (fun b => b = .opening count ∨ b = .closing count ∨ seen b)
      (ops ++ [.insert adjustedEnd c.closing] ++ [.insert adjustedStart c.opening])
      (replaceRange
        (replaceRange origins adjustedEnd adjustedEnd
          (List.replicate c.closing.length (.delimiter (.closing count))))
        adjustedStart adjustedStart
        (List.replicate c.opening.length (.delimiter (.opening count)))) := by
  have closed : adjustedEnd = rank (Origin.place gap) origins (2 * gap (.closing count)) := by
    rw [end_moved, stop_eq]
  have first := woven.insert (.closing count) c.closing_ne_nil
    (fun b earlier _ => newest b earlier) closed
  apply first.insert (.opening count) c.opening_ne_nil
  · intro b earlier same
    rcases earlier with rfl | earlier
    · omega
    · exact newest b earlier
  · have new : rank (Origin.place gap)
        (List.replicate c.closing.length (.delimiter (.closing count))) (2 * c.start) = 0 := by
      simp [rank, Origin.place, List.countP_replicate, stop_eq, Nat.le_of_lt ordered]
    rw [start_moved, start_eq, rank_replaceRange_insert, new, Nat.add_zero]

end Woven

/-! ## A window of range commands -/

theorem delimiterOf_even (count : Nat) : delimiterOf (2 * count) = .closing count := by
  simp [delimiterOf]

theorem delimiterOf_odd (count : Nat) : delimiterOf (2 * count + 1) = .opening count := by
  have half : (2 * count + 1) / 2 = count := by omega
  simp [delimiterOf, half]

/-- A store after `count` accepted range commands in a window. -/
structure Formatted (gap : Bracket Nat → Nat) (count : Nat) (s : Store) : Prop where
  sound : s.Sound
  length_eq : s.pending.length = 2 * count
  woven : Woven gap s.committedText.length (fun b => b.name < count) s.pending
    ((taggedText s.committedText s.pending).map Prod.snd)

/-- An accepted range command has a range in the committed text and enqueues its
two delimiters. -/
theorem Formatted.accepted {count : Nat} {s : Store} (formatted : Formatted gap count s)
    {c : RangeCommand} (accepted : (formatStep s c).2 = .success) :
    c.start < c.stop ∧ c.stop ≤ s.committedText.length ∧
      ∃ adjustedStart adjustedEnd,
        transformOps s.pending c.start = .ok adjustedStart ∧
        transformOps s.pending c.stop = .ok adjustedEnd ∧
        (formatStep s c).1 =
          s.enqueueAll [.insert adjustedEnd c.closing, .insert adjustedStart c.opening] ∧
        (formatStep s c).1.Sound := by
  by_cases invalid : c.stop ≤ c.start ∨ s.committedText.length < c.stop
  · rw [formatStep_invalid formatted.sound invalid] at accepted
    contradiction
  · obtain ⟨ordered, inText⟩ : c.start < c.stop ∧ c.stop ≤ s.committedText.length := by omega
    rcases formatStep_cases formatted.sound ordered inText with
      ⟨_, rejected⟩ | ⟨adjustedStart, adjustedEnd, startMoved, endMoved, step⟩
    · rw [rejected] at accepted
      contradiction
    · have inRange := c.toEdit.plan_inRange formatted.sound
        (by rw [c.plan_toEdit, planRange, if_neg invalid, startMoved, endMoved]; rfl)
      refine ⟨ordered, inText, adjustedStart, adjustedEnd, startMoved, endMoved, ?_, ?_⟩
      · rw [step]
      · rw [step, Store.Sound, Store.committedText_enqueueAll, Store.pending_enqueueAll]
        exact inRange

theorem Formatted.step {count : Nat} {s : Store} (formatted : Formatted gap count s)
    {c : RangeCommand} (start_eq : gap (.opening count) = c.start)
    (stop_eq : gap (.closing count) = c.stop) (accepted : (formatStep s c).2 = .success) :
    Formatted gap (count + 1) (formatStep s c).1 ∧
      (formatStep s c).1.committedText = s.committedText := by
  obtain ⟨ordered, inText, adjustedStart, adjustedEnd, startMoved, endMoved, next, sound⟩ :=
    formatted.accepted accepted
  have start_rank :=
    Except.ok.inj (startMoved.symm.trans (formatted.woven.moved c.start (by omega)))
  have end_rank := Except.ok.inj (endMoved.symm.trans (formatted.woven.moved c.stop inText))
  have woven := formatted.woven.format start_eq stop_eq (fun _ seen => seen) ordered start_rank
    end_rank
  have text_eq : (formatStep s c).1.committedText = s.committedText := by
    rw [next, Store.committedText_enqueueAll]
  have pending_eq : (formatStep s c).1.pending =
      s.pending ++ [.insert adjustedEnd c.closing] ++ [.insert adjustedStart c.opening] := by
    rw [next, Store.pending_enqueueAll]
    simp
  refine ⟨⟨sound, ?_, ?_⟩, text_eq⟩
  · rw [pending_eq, List.length_append, List.length_append, formatted.length_eq]
    rfl
  · have odd : (s.pending ++ [Op.insert adjustedEnd c.closing]).length = 2 * count + 1 := by
      rw [List.length_append, formatted.length_eq]
      rfl
    rw [text_eq, pending_eq, taggedText_concat, map_snd_spliceTagged_insert, taggedText_concat,
      map_snd_spliceTagged_insert, formatted.length_eq, odd, delimiterOf_even, delimiterOf_odd]
    apply woven.seen_congr
    intro b
    cases b with
    | opening k => simp [Bracket.name]; omega
    | closing k => simp [Bracket.name]; omega

/-- The bytes of the committed text alone. -/
theorem rank_committed (n : Nat) {p : Nat} (inText : p ≤ n) :
    rank (Origin.place gap) ((List.range n).map .committed) (2 * p) = p := by
  have counted (n : Nat) :
      rank (Origin.place gap) ((List.range n).map .committed) (2 * p) = min n p := by
    induction n with
    | zero => simp [rank]
    | succ n ih =>
        have before : (Origin.committed n).place gap < 2 * p ↔ n < p := by
          simp only [Origin.place]
          omega
        rw [List.range_succ, List.map_append, rank, List.countP_append, ← rank, ih, List.map_cons,
          List.map_nil, List.countP_singleton]
        simp only [decide_eq_true_eq, before]
        split <;> omega
  rw [counted, Nat.min_eq_right inText]

theorem map_snd_taggedText_nil (committed : Text) :
    (taggedText committed []).map Prod.snd = (List.range committed.length).map .committed := by
  rw [List.range_eq_range', ← List.zipIdx_map_snd 0 committed]
  simp only [taggedText, List.zipIdx_nil, List.foldl_nil, List.map_map]
  rfl

/-- A window starts with no delimiter. -/
theorem formatted_zero {s : Store} (none : s.pending = []) : Formatted gap 0 s where
  sound := by simp [Store.Sound, none]
  length_eq := by rw [none]; rfl
  woven := by
    rw [none, map_snd_taggedText_nil]
    refine ⟨?_, ?_, ?_, ?_⟩
    · rw [List.pairwise_map]
      apply List.pairwise_lt_range.imp
      intro j k below
      left
      simp only [Origin.place]
      omega
    · intro p inText
      rw [rank_committed _ inText]
      rfl
    · intro k below
      exact List.mem_map_of_mem (List.mem_range.mpr below)
    · intro b
      simp

/-- The gaps of the delimiters of a window: the ends of the committed ranges. -/
def gapOf (commands : List RangeCommand) : Bracket Nat → Nat
  | .opening k => (commands[k]?).elim 0 RangeCommand.start
  | .closing k => (commands[k]?).elim 0 RangeCommand.stop

theorem Formatted.run {count : Nat} {s : Store} (formatted : Formatted gap count s)
    (commands : List RangeCommand)
    (gaps : ∀ k c, commands[k]? = some c →
      gap (.opening (count + k)) = c.start ∧ gap (.closing (count + k)) = c.stop)
    (accepted : ∀ r ∈ (run formatStep s commands).2, r = .success) :
    Formatted gap (count + commands.length) (run formatStep s commands).1 ∧
      (run formatStep s commands).1.committedText = s.committedText ∧
      ∀ c ∈ commands, c.start < c.stop := by
  induction commands generalizing s count with
  | nil => exact ⟨formatted, rfl, fun _ member => absurd member List.not_mem_nil⟩
  | cons c rest ih =>
      obtain ⟨start_eq, stop_eq⟩ := gaps 0 c rfl
      have success : (formatStep s c).2 = .success := accepted _ List.mem_cons_self
      obtain ⟨ordered, -⟩ := formatted.accepted success
      obtain ⟨next, text_eq⟩ := formatted.step start_eq stop_eq success
      obtain ⟨last, later_text, later_ordered⟩ := ih next
        (fun k d found => by
          have shifted := gaps (k + 1) d found
          rwa [← Nat.add_assoc, Nat.add_right_comm] at shifted)
        (fun r member => accepted r (List.mem_cons_of_mem _ member))
      refine ⟨?_, later_text.trans text_eq, ?_⟩
      · rw [List.length_cons, ← Nat.add_assoc, Nat.add_right_comm]
        exact last
      · intro d member
        rcases List.mem_cons.mp member with rfl | later
        · exact ordered
        · exact later_ordered d later

/-! ## Crossings -/

/-- `Before`, or the same delimiter. -/
def WeaklyBefore (gap : Bracket Nat → Nat) (first second : Bracket Nat) : Prop :=
  first = second ∨ Before gap first second

instance (gap : Bracket Nat → Nat) : Std.Antisymm (WeaklyBefore gap) where
  antisymm first second before after := by
    rcases before with same | before
    · exact same
    · rcases after with same | after
      · exact same.symm
      · unfold Before at before after
        omega

theorem Origin.bracket?_eq_some {origin : Origin} {b : Bracket Nat} :
    origin.bracket? = some b ↔ origin = .delimiter b := by
  cases origin <;> simp [Origin.bracket?]

/-- What the delimiters of a formatted window look like: those of the commands so
far, in order. -/
theorem Formatted.delimiters_eq {count : Nat} {s : Store} (formatted : Formatted gap count s) :
    let brackets := delimiters (taggedText s.committedText s.pending)
    brackets.Nodup ∧ brackets.Pairwise (WeaklyBefore gap) ∧
      ∀ b, b ∈ brackets ↔ b.name < count := by
  intro brackets
  have ordered : ((taggedText s.committedText s.pending).filterMap (·.2.bracket?)).Pairwise
      (WeaklyBefore gap) := by
    have origins := List.pairwise_map.mp formatted.woven.ordered
    apply origins.filterMap
    rintro ⟨_, first⟩ ⟨_, second⟩ before b isFirst b' isSecond
    rw [Origin.bracket?_eq_some.mp isFirst, Origin.bracket?_eq_some.mp isSecond] at before
    rcases before with earlier | same | ⟨_, _, first_eq, second_eq, before⟩
    · exact .inr (.inl (Nat.lt_of_mul_lt_mul_left earlier))
    · exact .inl (Origin.delimiter.inj same)
    · rw [Origin.delimiter.inj first_eq, Origin.delimiter.inj second_eq]
      exact .inr before
  have unique : brackets =
      ((taggedText s.committedText s.pending).filterMap (·.2.bracket?)).dedup :=
    ordered.destutter_eq_dedup
  rw [unique]
  refine ⟨List.nodup_dedup _, ordered.sublist (List.dedup_sublist _), ?_⟩
  intro b
  rw [List.mem_dedup, ← formatted.woven.marked b, List.mem_filterMap, List.mem_map]
  simp only [Origin.bracket?_eq_some]

/-- Brackets in order form a subsequence of the delimiters. -/
theorem Formatted.sublist {count : Nat} {s : Store} (formatted : Formatted gap count s)
    {brackets : List (Bracket Nat)} (ordered : brackets.Pairwise (Before gap))
    (named : ∀ b ∈ brackets, b.name < count) :
    brackets.Sublist (delimiters (taggedText s.committedText s.pending)) := by
  obtain ⟨nodup, sorted, members⟩ := formatted.delimiters_eq
  have distinct : brackets.Nodup := ordered.imp fun before same => by
    unfold Before at before
    subst same
    omega
  exact List.sublist_of_subperm_of_pairwise
    (List.subperm_of_subset distinct fun b member => (members b).mpr (named b member))
    (ordered.imp .inr) sorted

theorem Formatted.paired {count : Nat} {s : Store} (formatted : Formatted gap count s)
    (opens : ∀ k < count, gap (.opening k) < gap (.closing k)) :
    Bracket.Paired (delimiters (taggedText s.committedText s.pending)) := by
  obtain ⟨nodup, -, members⟩ := formatted.delimiters_eq
  refine ⟨nodup, ?_, ?_⟩
  · intro k member
    exact (members _).mpr ((members (.opening k)).mp member)
  · intro k member
    have named : k < count := (members (.closing k)).mp member
    apply formatted.sublist
    · simp [Before, opens k named]
    · simp [Bracket.name, named]

theorem Formatted.before_of_sublist {count : Nat} {s : Store} (formatted : Formatted gap count s)
    {first second : Bracket Nat}
    (sublist : [first, second].Sublist (delimiters (taggedText s.committedText s.pending))) :
    Before gap first second := by
  obtain ⟨nodup, sorted, -⟩ := formatted.delimiters_eq
  have distinct : first ≠ second := by simpa using nodup.sublist sublist
  have weakly : WeaklyBefore gap first second := by simpa using sorted.sublist sublist
  exact weakly.resolve_left distinct

/-- Two commands cross when their ends interleave in the order of the working
text. -/
theorem Formatted.crosses_iff {count : Nat} {s : Store} (formatted : Formatted gap count s)
    (first second : Nat) :
    Bracket.Crosses (delimiters (taggedText s.committedText s.pending)) first second ↔
      (first < count ∧ second < count) ∧ Before gap (.opening first) (.opening second) ∧
        Before gap (.opening second) (.closing first) ∧
        Before gap (.closing first) (.closing second) := by
  constructor
  · intro crosses
    obtain ⟨-, -, members⟩ := formatted.delimiters_eq
    have named {k : Nat} (member : .opening k ∈ [Bracket.opening first, .opening second,
        .closing first, .closing second]) : k < count :=
      (members (.opening k)).mp (crosses.subset member)
    have before {b b' : Bracket Nat} (pair : [b, b'].Sublist [Bracket.opening first,
        .opening second, .closing first, .closing second]) : Before gap b b' :=
      formatted.before_of_sublist (pair.trans crosses)
    exact ⟨⟨named (by simp), named (by simp)⟩, before (by simp), before (by simp),
      before (by simp)⟩
  · rintro ⟨⟨firstNamed, secondNamed⟩, opened, inside, closed⟩
    apply formatted.sublist
    · simp only [Before, Bracket.name] at opened inside closed
      simp only [List.pairwise_cons, Before, Bracket.name]
      simp
      omega
    · simp [Bracket.name, firstNamed, secondNamed]

theorem gapOf_of_getElem? {commands : List RangeCommand} {k : Nat} {c : RangeCommand}
    (found : commands[k]? = some c) :
    gapOf commands (.opening k) = c.start ∧ gapOf commands (.closing k) = c.stop := by
  simp [gapOf, found]

/-- Two commands on laminar ranges cross, either way round, exactly when the later
one clashes with the earlier one. -/
theorem Formatted.crosses_or_iff {commands : List RangeCommand} {s : Store}
    (formatted : Formatted (gapOf commands) commands.length s)
    (ordered : ∀ c ∈ commands, c.start < c.stop)
    {i j : Nat} (earlier : i < j) (inside : j < commands.length)
    (laminar : RangeCommand.Laminar (commands[i]) commands[j]) :
    (Bracket.Crosses (delimiters (taggedText s.committedText s.pending)) i j ∨
        Bracket.Crosses (delimiters (taggedText s.committedText s.pending)) j i) ↔
      RangeCommand.Clashes commands[i] commands[j] := by
  have first := gapOf_of_getElem? (List.getElem?_eq_getElem (Nat.lt_trans earlier inside))
  have second := gapOf_of_getElem? (List.getElem?_eq_getElem inside)
  have firstOrdered := ordered _ (List.getElem_mem (Nat.lt_trans earlier inside))
  have secondOrdered := ordered _ (List.getElem_mem inside)
  rw [formatted.crosses_iff, formatted.crosses_iff]
  simp only [Before, Bracket.name, first, second, RangeCommand.Clashes]
  unfold RangeCommand.Laminar at laminar
  omega

/-- In a window of accepted range commands on laminar ranges, the tagged delimiters
nest properly exactly when no later command clashes with an earlier one. -/
theorem delimiters_nested_iff (s : Store) (none : s.pending = []) (commands : List RangeCommand)
    (accepted : ∀ r ∈ (run formatStep s commands).2, r = .success)
    (laminar : commands.Pairwise RangeCommand.Laminar) :
    let formatted := (run formatStep s commands).1
    let tagged := taggedText formatted.committedText formatted.pending
    tagged.map Prod.fst = formatted.workingText ∧
      (Bracket.Nested (delimiters tagged) ↔
        commands.Pairwise fun earlier later => ¬RangeCommand.Clashes earlier later) := by
  obtain ⟨formatted, -, ordered⟩ := (formatted_zero none).run commands
    (fun k c found => by simpa using gapOf_of_getElem? found) accepted
  rw [Nat.zero_add] at formatted
  have paired := formatted.paired fun k inside => by
    obtain ⟨start_eq, stop_eq⟩ := gapOf_of_getElem? (List.getElem?_eq_getElem inside)
    rw [start_eq, stop_eq]
    exact ordered _ (List.getElem_mem inside)
  refine ⟨map_fst_taggedText _ _, ?_⟩
  rw [Bracket.nested_iff paired, List.pairwise_iff_getElem]
  have pairs := List.pairwise_iff_getElem.mp laminar
  constructor
  · intro uncrossed i j iInside jInside earlier clashes
    rcases (formatted.crosses_or_iff ordered earlier jInside
      (pairs i j iInside jInside earlier)).mpr clashes with crosses | crosses
    · exact uncrossed i j crosses
    · exact uncrossed j i crosses
  · intro peaceful i j crosses
    obtain ⟨⟨iInside, jInside⟩, opened, -⟩ := (formatted.crosses_iff i j).mp crosses
    rcases Nat.lt_trichotomy i j with earlier | rfl | later
    · exact peaceful i j iInside jInside earlier ((formatted.crosses_or_iff ordered earlier jInside
        (pairs i j iInside jInside earlier)).mp (.inl crosses))
    · unfold Before at opened
      omega
    · exact peaceful j i jInside iInside later ((formatted.crosses_or_iff ordered later iInside
        (pairs j i jInside iInside later)).mp (.inr crosses))

/-- A link, code behind it, and a bold range around the link that ends where the
code starts. -/
theorem delimiters_nested_link :
    Bracket.Nested (delimiters (taggedText (ascii "a link b")
      (run formatStep (Store.snapshot 1 ⟨[], rfl⟩ (ascii "a link b") 3)
        [.link 2 6 (ascii "u"), .code 7 8, .bold 0 7]).1.pending)) :=
  (delimiters_nested_iff (Store.snapshot 1 ⟨[], rfl⟩ (ascii "a link b") 3) rfl
    [.link 2 6 (ascii "u"), .code 7 8, .bold 0 7] (by decide) (by decide)).2.mpr (by decide)

/-- The code starts where the bold range ends, and its opening delimiter lands in
front of the closing one. -/
theorem touching_delimiters_cross :
    let s := (run editStep (Store.fresh 1 ⟨[], rfl⟩)
      [.edit 0 (.insert 0 (some (ascii "ab"))), .increment]).1
    let commands := [RangeCommand.bold 0 1, .code 1 2]
    let formatted := (run formatStep s commands).1
    (run formatStep s commands).2 = [.success, .success] ∧
      commands.Pairwise RangeCommand.Laminar ∧
      formatted.workingText = ascii "**a`**b`" ∧
      delimiters (taggedText formatted.committedText formatted.pending) =
        [.opening 0, .opening 1, .closing 0, .closing 1] ∧
      ¬Bracket.Nested (delimiters (taggedText formatted.committedText formatted.pending)) := by
  decide

end CollabMarkdown.Markdown
