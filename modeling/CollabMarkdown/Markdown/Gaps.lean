import CollabMarkdown.Markdown.Survivors
import CollabMarkdown.Sequence.Gaps

/-!
# Range commands as fillings of gaps

As long as nothing is deleted, the working text is the committed text with its gaps
filled, and a committed position is carried to the start of its gap.  A range command
puts its delimiters at the front of the gaps its ends are in.  Ranges that are
separated fill each gap at most once, so the order they are submitted in does not
matter.
-/

namespace CollabMarkdown.Markdown

open CollabMarkdown.CString
open CollabMarkdown.Sequence
open CollabMarkdown.Transition

/-- A byte of the working text, with the place in the pending list of the operation
that inserted it. -/
abbrev AuthoredByte : Type :=
  Byte × Option Nat

/-- The working text over the committed one, with the operations that inserted its
bytes. -/
def authored (committed : Text) (ops : List Op) : List AuthoredByte :=
  ops.zipIdx.foldl (fun text op => op.1.spliceItems (·, some op.2) text) (committed.map (·, none))

theorem authored_concat (committed : Text) (ops : List Op) (op : Op) :
    authored committed (ops ++ [op]) =
      op.spliceItems (·, some ops.length) (authored committed ops) := by
  simp [authored, List.zipIdx_append]

theorem map_fst_authored (committed : Text) (ops : List Op) :
    (authored committed ops).map Prod.fst = spliceAll committed ops := by
  induction ops using List.reverseRecOn with
  | nil => simp [authored, Function.comp_def]
  | append_singleton ops op ih =>
      rw [authored_concat, Op.map_spliceItems, ih, spliceAll_append]
      exact Op.spliceItems_id _ _

theorem length_authored (committed : Text) (ops : List Op) :
    (authored committed ops).length = (spliceAll committed ops).length := by
  rw [← map_fst_authored, List.length_map]

/-- What a range command puts into gap `k`. -/
def RangeCommand.delimitersIn (toGap : Nat → Nat) (k : Nat) (c : RangeCommand) : Text :=
  (if toGap c.start = k then c.opening else []) ++ if toGap c.stop = k then c.closing else []

/-- The same with the operations behind `count` earlier ones that insert it. -/
def RangeCommand.authoredIn (toGap : Nat → Nat) (count k : Nat) (c : RangeCommand) :
    List AuthoredByte :=
  (if toGap c.start = k then c.opening.map (·, some (count + 1)) else []) ++
    if toGap c.stop = k then c.closing.map (·, some count) else []

namespace RangeCommand

variable (toGap : Nat → Nat) (count k : Nat) (c : RangeCommand)

theorem map_fst_authoredIn :
    (c.authoredIn toGap count k).map Prod.fst = c.delimitersIn toGap k := by
  unfold authoredIn delimitersIn
  split <;> split <;> simp [Function.comp_def]

theorem author_of_mem_authoredIn {toGap : Nat → Nat} {count k : Nat} {c : RangeCommand}
    {b : AuthoredByte} (member : b ∈ c.authoredIn toGap count k) :
    ∃ j, b.2 = some j ∧ count ≤ j := by
  rcases List.mem_append.mp member with opened | closed
  · split at opened
    · obtain ⟨_, -, rfl⟩ := List.mem_map.mp opened
      exact ⟨count + 1, rfl, Nat.le_succ count⟩
    · exact absurd opened List.not_mem_nil
  · split at closed
    · obtain ⟨_, -, rfl⟩ := List.mem_map.mp closed
      exact ⟨count, rfl, Nat.le_refl count⟩
    · exact absurd closed List.not_mem_nil

/-- Both delimiters at the front of their gaps. -/
theorem fillGap_delimiters (gaps : Nat → List AuthoredByte) :
    fillGap (fillGap gaps (toGap c.stop) 0 (c.closing.map (·, some count)))
        (toGap c.start) 0 (c.opening.map (·, some (count + 1))) =
      fun k => c.authoredIn toGap count k ++ gaps k := by
  funext k
  simp only [fillGap_front, authoredIn, List.append_assoc]

end RangeCommand

/-! ## Stores with filled gaps -/

/-- The working text consists of some items with filled gaps, and each committed
position is carried to the start of a gap. -/
structure InGaps (items : List AuthoredByte) (toGap : Nat → Nat) (gaps : Nat → List AuthoredByte)
    (s : Store) : Prop where
  sound : s.Sound
  text_eq : authored s.committedText s.pending = weave gaps items
  moved : ∀ q ≤ s.committedText.length,
    transformOps s.pending q = .ok (gapStart gaps (toGap q))
  inItems : ∀ q ≤ s.committedText.length, toGap q ≤ items.length
  mono : ∀ p q, p ≤ q → toGap p ≤ toGap q

theorem inGaps_of_pending_nil {s : Store} (empty : s.pending = []) :
    InGaps (s.committedText.map (·, none)) id (fun _ => []) s where
  sound := by simp [Store.Sound, empty]
  text_eq := by
    rw [empty, weave_nil]
    rfl
  moved q _ := by
    rw [empty, gapStart_nil]
    rfl
  inItems q inText := by simpa using inText
  mono _ _ le := le

namespace InGaps

variable {items : List AuthoredByte} {toGap : Nat → Nat} {gaps : Nat → List AuthoredByte}
variable {s : Store}

theorem length_workingText (inGaps : InGaps items toGap gaps s) :
    s.workingText.length = (weave gaps items).length := by
  rw [← inGaps.text_eq, length_authored, Store.workingText]

/-- An insertion at a place inside a gap. -/
theorem enqueue (inGaps : InGaps items toGap gaps s) {k offset : Nat} (inItems : k ≤ items.length)
    (inside : offset ≤ (gaps k).length) (data : Text) :
    InGaps items toGap (fillGap gaps k offset (data.map (·, some s.pending.length)))
      (s.enqueue (.insert (gapStart gaps k + offset) data)) where
  sound := by
    have bound := gapStart_le_length gaps inItems
    have len_eq := inGaps.length_workingText
    rw [Store.Sound, Store.committedText_enqueue, Store.pending_enqueue, allInRange_append]
    refine ⟨inGaps.sound, ?_, trivial⟩
    show gapStart gaps k + offset ≤ s.workingText.length
    omega
  text_eq := by
    have bound := gapStart_le_length gaps inItems
    rw [Store.committedText_enqueue, Store.pending_enqueue, authored_concat, inGaps.text_eq,
      Op.spliceItems_insert _ (by omega), replaceRange_weave inItems inside]
  moved q inText := by
    rw [Store.pending_enqueue, transformOps_concat, inGaps.moved q inText,
      gapStart_fillGap inside]
    simp only [Except.bind, transformOp, place_lt_gapStart_iff inside, List.length_map]
  inItems := inGaps.inItems
  mono := inGaps.mono

/-- A range command on a nonempty range of the committed text succeeds, and puts its
delimiters at the front of their gaps. -/
theorem format (inGaps : InGaps items toGap gaps s) {c : RangeCommand}
    (ordered : c.start < c.stop) (inText : c.stop ≤ s.committedText.length) :
    (formatStep s c).2 = .success ∧ (formatStep s c).1.committedText = s.committedText ∧
      s.pending.length ≤ (formatStep s c).1.pending.length ∧
      InGaps items toGap (fun k => c.authoredIn toGap s.pending.length k ++ gaps k)
        (formatStep s c).1 := by
  have startMoved := inGaps.moved c.start (by omega)
  have stopMoved := inGaps.moved c.stop inText
  rcases formatStep_cases inGaps.sound ordered inText with
    ⟨refused, _⟩ | ⟨start, stop, startOk, stopOk, step⟩
  · rw [startMoved, stopMoved] at refused
    simp at refused
  · obtain rfl := Except.ok.inj (startOk.symm.trans startMoved)
    obtain rfl := Except.ok.inj (stopOk.symm.trans stopMoved)
    have closed := inGaps.enqueue (inGaps.inItems c.stop inText) (Nat.zero_le _) c.closing
    have opened := closed.enqueue (inGaps.inItems c.start (by omega)) (Nat.zero_le _) c.opening
    -- the opening delimiter goes to a gap that the closing one left where it was
    rw [gapStart_fillGap (Nat.zero_le _),
      if_neg (Nat.not_lt.mpr (inGaps.mono _ _ (Nat.le_of_lt ordered))), Store.pending_enqueue,
      List.length_append, List.length_singleton, c.fillGap_delimiters] at opened
    rw [step]
    exact ⟨rfl, Store.committedText_enqueueAll _ _, by simp, opened⟩

/-- Accepted range commands have nonempty ranges of the committed text. -/
theorem valid_of_accepted (inGaps : InGaps items toGap gaps s) {commands : List RangeCommand}
    (accepted : ∀ r ∈ (Transition.run formatStep s commands).2, r = .success) :
    ∀ c ∈ commands, c.start < c.stop ∧ c.stop ≤ s.committedText.length := by
  induction commands generalizing s gaps with
  | nil => simp
  | cons c rest ih =>
      have valid : c.start < c.stop ∧ c.stop ≤ s.committedText.length := by
        by_contra invalid
        have refused := formatStep_invalid inGaps.sound (c := c) (by omega)
        have success := accepted _ List.mem_cons_self
        rw [refused] at success
        contradiction
      obtain ⟨-, text_eq, -, next⟩ := inGaps.format valid.1 valid.2
      intro d member
      rcases List.mem_cons.mp member with rfl | later
      · exact valid
      · rw [← text_eq]
        exact ih next (fun r member => accepted r (List.mem_cons_of_mem _ member)) d later

/-- Range commands all succeed and put their delimiters in front of what is in the
gaps, the last command first. -/
theorem run (inGaps : InGaps items toGap gaps s) {commands : List RangeCommand}
    (valid : ∀ c ∈ commands, c.start < c.stop ∧ c.stop ≤ s.committedText.length) :
    (∀ r ∈ (run formatStep s commands).2, r = .success) ∧
      ∃ added : Nat → List AuthoredByte,
        InGaps items toGap (fun k => added k ++ gaps k) (Transition.run formatStep s commands).1 ∧
        (∀ k, (added k).map Prod.fst = commands.reverse.flatMap (·.delimitersIn toGap k)) ∧
        ∀ k, ∀ b ∈ added k, ∃ j, b.2 = some j ∧ s.pending.length ≤ j := by
  induction commands generalizing s gaps with
  | nil => exact ⟨by simp, fun _ => [], by simpa using inGaps, by simp, by simp⟩
  | cons c rest ih =>
      obtain ⟨ordered, inText⟩ := valid c List.mem_cons_self
      obtain ⟨success, text_eq, longer, next⟩ := inGaps.format ordered inText
      obtain ⟨accepted, added, last, texts, authors⟩ := ih next fun d member => by
        rw [text_eq]
        exact valid d (List.mem_cons_of_mem _ member)
      refine ⟨?_, fun k => added k ++ c.authoredIn toGap s.pending.length k, ?_, ?_, ?_⟩
      · intro r member
        rcases List.mem_cons.mp member with rfl | later
        · exact success
        · exact accepted r later
      · simpa only [List.append_assoc, run_cons] using last
      · intro k
        rw [List.map_append, texts, c.map_fst_authoredIn, List.reverse_cons, List.flatMap_append,
          List.flatMap_singleton]
      · intro k b member
        rcases List.mem_append.mp member with later | own
        · obtain ⟨j, author, behind⟩ := authors k b later
          exact ⟨j, author, Nat.le_trans longer behind⟩
        · exact RangeCommand.author_of_mem_authoredIn own

end InGaps

/-! ## Separated ranges -/

/-- A character lies between the two ranges. -/
def RangeCommand.Separated (c d : RangeCommand) : Prop :=
  c.stop < d.start ∨ d.stop < c.start

instance (c d : RangeCommand) : Decidable (c.Separated d) :=
  inferInstanceAs (Decidable (_ ∨ _))

/-- What a set of range commands puts in front of the committed character `k`, or at
the end: the opening delimiters of those that start there, and the closing ones of
those that end there. -/
def markup (commands : List RangeCommand) (k : Nat) : Text :=
  commands.flatMap fun c =>
    (if c.start = k then c.opening else []) ++ if c.stop = k then c.closing else []

/-- Separated ranges have no end in common. -/
theorem RangeCommand.Separated.delimitersIn {c d : RangeCommand} (separated : c.Separated d)
    (c_ordered : c.start < c.stop) (d_ordered : d.start < d.stop) (k : Nat) :
    c.delimitersIn id k = [] ∨ d.delimitersIn id k = [] := by
  unfold RangeCommand.Separated at separated
  simp only [RangeCommand.delimitersIn, id_eq]
  by_cases here : c.start = k ∨ c.stop = k
  · right
    rw [if_neg (by omega), if_neg (by omega)]
    rfl
  · left
    rw [if_neg (by omega), if_neg (by omega)]
    rfl

/-- Range commands on nonempty ranges of the committed text, pairwise separated, all
succeed whatever order they are submitted in, and wrap every range in its own
delimiters. -/
theorem separated_formats (s : Store) (empty : s.pending = []) (commands : List RangeCommand)
    (valid : ∀ c ∈ commands, c.start < c.stop ∧ c.stop ≤ s.committedText.length)
    (separated : commands.Pairwise RangeCommand.Separated) (submitted : List RangeCommand)
    (order : submitted.Perm commands) :
    (∀ r ∈ (run formatStep s submitted).2, r = .success) ∧
      (run formatStep s submitted).1.workingText = weave (markup commands) s.committedText := by
  obtain ⟨accepted, added, inGaps, texts, -⟩ := (inGaps_of_pending_nil empty).run
    fun c (member : c ∈ submitted) => valid c (order.subset member)
  refine ⟨accepted, ?_⟩
  have gaps_eq (k : Nat) : (added k).map Prod.fst = markup commands k := by
    have apart : commands.Pairwise fun c d =>
        c.delimitersIn id k = [] ∨ d.delimitersIn id k = [] :=
      separated.imp_of_mem fun first second clear =>
        clear.delimitersIn (valid _ first).1 (valid _ second).1 k
    rw [texts]
    exact (flatMap_eq_of_perm ((List.reverse_perm submitted).trans order).symm apart).symm
  rw [Store.workingText, ← map_fst_authored, inGaps.text_eq, map_weave]
  simp only [List.append_nil, gaps_eq, List.map_map, Function.comp_def, List.map_id']

/-- The second word becomes a link before the first one becomes bold. -/
theorem separated_formats_swapped :
    let s := (run editStep (Store.fresh 1 ⟨[], rfl⟩)
      [.edit 0 (.insert 0 (some (ascii "hello world"))), .increment]).1
    let submitted := [RangeCommand.link 6 11 (ascii "u"), .bold 0 5]
    (∀ r ∈ (run formatStep s submitted).2, r = .success) ∧
      (run formatStep s submitted).1.workingText =
        weave (markup [.bold 0 5, .link 6 11 (ascii "u")]) s.committedText :=
  separated_formats
    (run editStep (Store.fresh 1 ⟨[], rfl⟩)
      [.edit 0 (.insert 0 (some (ascii "hello world"))), .increment]).1
    (by decide) [.bold 0 5, .link 6 11 (ascii "u")] (by decide) (by decide)
    [.link 6 11 (ascii "u"), .bold 0 5] (List.Perm.swap _ _ _)

example : weave (markup [.bold 0 5, .link 6 11 (ascii "u")]) (ascii "hello world") =
    ascii "**hello** [world](u)" := by
  decide

end CollabMarkdown.Markdown
