import CollabMarkdown.Markdown.Session
import CollabMarkdown.Sequence.Splice

/-!
# Two edits in one version window

The engine's rule is that positions in a later command of a version window refer
to the committed text.  `markdown_insert` and `markdown_delete` do not carry
their positions over the pending operations, so two separate edits may end up in
different places in the two orders of submission.

Submitting the right edit first is always correct.  Submitting the left one
first puts the right one at its committed position in a text the left one has
already shifted; `SlidesFreely` says when that makes no difference.
-/

namespace CollabMarkdown.Markdown

open CollabMarkdown.CString
open CollabMarkdown.Sequence
open CollabMarkdown.Transition

/-! ## Edits of a range -/

/-- The calls that replace a range of bytes: an INSERT an empty one, a DEL by
nothing. -/
inductive LocalEdit where
  | insert (pos : Nat) (content : Text)
  | delete (pos len : Nat)
  deriving DecidableEq, Repr

namespace LocalEdit

/-- The call that an edit makes. -/
def toEdit : LocalEdit → Edit
  | insert pos content => .insert pos (some content)
  | delete pos len => .delete pos len

/-- The start of the range replaced. -/
def start : LocalEdit → Nat
  | insert pos _ => pos
  | delete pos _ => pos

/-- The end of the range replaced. -/
def stop : LocalEdit → Nat
  | insert pos _ => pos
  | delete pos len => pos + len

/-- What the range is replaced by. -/
def data : LocalEdit → Text
  | insert _ content => content
  | delete _ _ => []

theorem start_le_stop (e : LocalEdit) : e.start ≤ e.stop := by
  cases e <;> simp [start, stop]

/-- The text with the edit made at its own positions. -/
def splice (text : Text) (e : LocalEdit) : Text :=
  replaceRange text e.start e.stop e.data

theorem length_splice {e : LocalEdit} {text : Text} (inText : e.stop ≤ text.length) :
    (e.splice text).length + (e.stop - e.start) = text.length + e.data.length :=
  length_replaceRange e.start_le_stop inText e.data

/-- The operations enqueued when the working text has `n` bytes. -/
def ops (n : Nat) : LocalEdit → List Op
  | insert pos content => [.insert pos content]
  | delete pos len =>
      if len = 0 then [] else [.delete pos (if n < sizeAdd pos len then n - pos else len)]

theorem run_toEdit (e : LocalEdit) (s : Store) :
    Id.run (e.toEdit.run s s.version) =
      s.follow (planAt s.workingText e.start (e.ops s.workingText.length)) := by
  cases e with
  | insert pos content =>
      have inserted := run_markdownInsert s s.version pos (some content)
      rwa [if_neg (not_not.mpr rfl)] at inserted
  | delete pos len =>
      have deleted := run_markdownDelete s s.version pos len
      rwa [if_neg (not_not.mpr rfl)] at deleted

/-- The operations splice the working text at the raw positions of the edit. -/
theorem spliceAll_ops (e : LocalEdit) {text : Text} (inside : e.start ≤ text.length)
    (fits : e.stop < sizeModulus) : spliceAll text (e.ops text.length) = e.splice text := by
  cases e with
  | insert pos content => exact splice_insert text pos content
  | delete pos len =>
      have stop_eq : sizeAdd pos len = pos + len := sizeAdd_of_lt fits
      simp only [start] at inside
      by_cases empty : len = 0
      · simp [ops, splice, replaceRange, start, stop, data, empty]
      · rw [ops, if_neg empty, spliceAll_cons, spliceAll_nil, stop_eq]
        by_cases beyond : text.length < pos + len
        · have reach : sizeAdd pos (text.length - pos) = text.length := by
            simp only [stop] at fits
            rw [sizeAdd_of_lt (by omega)]
            omega
          rw [if_pos beyond, splice_delete ⟨inside, Nat.le_of_eq reach⟩, reach]
          simp [splice, replaceRange, start, stop, data, List.drop_eq_nil_of_le beyond.le]
        · rw [if_neg beyond, splice_delete ⟨inside, by omega⟩, stop_eq]
          simp [splice, replaceRange, start, stop, data]

end LocalEdit

/-! ## Two edits -/

/-- Two edits submitted at the version of a store, then a commit: what the edits
return and the text that is committed. -/
def submitBoth (s : Store) (first second : LocalEdit) : (MarkdownResult × MarkdownResult) × Text :=
  let one := Id.run (first.toEdit.run s s.version)
  let two := Id.run (second.toEdit.run one.2 s.version)
  ((one.1, two.1), (Id.run (markdownIncrementVersion two.2)).committedText)

/-- The committed text with two edits made at their committed positions, the
first of them to the left of the second. -/
def bothMade (committed : Text) (left right : LocalEdit) : Text :=
  replaceTwo committed left.start left.stop left.data right.start right.stop right.data

/-- Submitted in either order, both edits succeed and the commit yields the
committed text with both made. -/
def Commute (s : Store) (left right : LocalEdit) : Prop :=
  submitBoth s left right =
      ((.success, .success), renumbered (bothMade s.committedText left right)) ∧
    submitBoth s right left =
      ((.success, .success), renumbered (bothMade s.committedText left right))

instance (s : Store) (left right : LocalEdit) : Decidable (Commute s left right) :=
  inferInstanceAs (Decidable (_ ∧ _))

/-- What an edit makes of the bytes under two places of it, `distance` apart: an INSERT
puts its content in front of them or behind them, a DEL keeps the last or the first
`distance` of them. -/
def LocalEdit.ends (distance : Nat) (under : Text) : LocalEdit → Text × Text
  | insert _ content => (content ++ under, under ++ content)
  | delete _ len => (under.drop len, under.take distance)

/-- Between the same bytes, two texts are equal, or differ in digits of list lines alone. -/
def AlikeBetween (before first second after : Text) : Prop :=
  first = second ∨
    ∀ i < first.length, first[i]? = second[i]? ∨
      NumberAt (before ++ first ++ after) (before.length + i) ∧
        NumberAt (before ++ second ++ after) (before.length + i)

instance (before first second after : Text) :
    Decidable (AlikeBetween before first second after) :=
  inferInstanceAs (Decidable (_ ∨ _))

/-- In the text that the left edit leaves, the right one still lies inside, and it has not
been moved, or it commutes with the bytes it slides over: made at either end of them it
leaves the same bytes, list numbers apart. -/
def SlidesFreely (committed : Text) (left right : LocalEdit) : Prop :=
  let working := left.splice committed
  let grown := left.data.length - (left.stop - left.start)
  let shrunk := (left.stop - left.start) - left.data.length
  let start := right.start - shrunk
  let distance := grown + shrunk
  let size := right.stop - right.start
  let ends := right.ends distance ((working.drop start).take (distance + size))
  right.stop ≤ working.length ∧
    (distance = 0 ∨
      AlikeBetween (working.take start) ends.1 ends.2 (working.drop (start + distance + size)))

instance (committed : Text) (left right : LocalEdit) :
    Decidable (SlidesFreely committed left right) :=
  inferInstanceAs (Decidable (_ ∧ (_ ∨ _)))

/-- What two edits in a window return and commit. -/
theorem submitBoth_eq {s : Store} (none : s.pending = []) {first second : LocalEdit}
    (firstInside : first.start ≤ s.committedText.length) (firstFits : first.stop < sizeModulus)
    (secondFits : second.stop < sizeModulus) :
    submitBoth s first second =
      if (first.splice s.committedText).length < second.start then
        ((.success, .invalidCursorPos), renumbered (first.splice s.committedText))
      else
        ((.success, .success), renumbered (second.splice (first.splice s.committedText))) := by
  have working : s.workingText = s.committedText := Store.workingText_of_pending_nil none
  have one := first.run_toEdit s
  rw [working, planAt, if_neg (Nat.not_lt.mpr firstInside), Store.follow] at one
  have next : (s.enqueueAll (first.ops s.committedText.length)).workingText =
      first.splice s.committedText := by
    rw [Store.workingText_enqueueAll, working, first.spliceAll_ops firstInside firstFits]
  have two := second.run_toEdit (s.enqueueAll (first.ops s.committedText.length))
  rw [Store.version_enqueueAll, next, planAt] at two
  simp only [submitBoth, one, two, run_markdownIncrementVersion]
  by_cases outside : (first.splice s.committedText).length < second.start
  · rw [if_pos outside, if_pos outside, Store.follow, Store.committedText_commit, next]
  · rw [if_neg outside, if_neg outside, Store.follow, Store.committedText_commit,
      Store.workingText_enqueueAll, next, second.spliceAll_ops (Nat.not_lt.mp outside) secondFits]

/-- Submitting the right edit first is always correct. -/
theorem submitBoth_right_first {s : Store} (none : s.pending = [])
    (fits : s.committedText.length < sizeModulus) {left right : LocalEdit}
    (apart : left.stop < right.start) (inText : right.stop ≤ s.committedText.length) :
    submitBoth s right left =
      ((.success, .success), renumbered (bothMade s.committedText left right)) := by
  have leftOrder := left.start_le_stop
  have rightOrder := right.start_le_stop
  have made : left.splice (right.splice s.committedText) = bothMade s.committedText left right :=
    replaceRange_right_first leftOrder apart.le rightOrder inText _ _
  have length_eq := right.length_splice inText
  have reached : ¬(right.splice s.committedText).length < left.start := by omega
  rw [submitBoth_eq none (by omega) (by omega) (by omega), if_neg reached, made]

/-- In the text the left edit leaves, the right one belongs where the left one has
moved it to. -/
theorem bothMade_eq {committed : Text} {left right : LocalEdit} (apart : left.stop < right.start)
    (inText : right.stop ≤ committed.length) :
    bothMade committed left right =
      replaceRange (left.splice committed)
        (right.start + left.data.length - (left.stop - left.start))
        (right.stop + left.data.length - (left.stop - left.start)) right.data :=
  (replaceRange_left_first left.start_le_stop apart.le right.start_le_stop inText _ _).symm

/-- A right edit that no longer lies in the text the left one leaves is lost or cut
short. -/
theorem length_splice_ne_bothMade {committed : Text} {left right : LocalEdit}
    (apart : left.stop < right.start) (inText : right.stop ≤ committed.length)
    (reached : right.start ≤ (left.splice committed).length)
    (beyond : (left.splice committed).length < right.stop) :
    (right.splice (left.splice committed)).length ≠ (bothMade committed left right).length := by
  have leftOrder := left.start_le_stop
  have rightOrder := right.start_le_stop
  have leftInText : left.stop ≤ committed.length := by omega
  have working := left.length_splice leftInText
  have moved : right.start + left.data.length - (left.stop - left.start) ≤
      right.stop + left.data.length - (left.stop - left.start) := by omega
  have movedInText : right.stop + left.data.length - (left.stop - left.start) ≤
      (left.splice committed).length := by omega
  have made := length_replaceRange moved movedInText right.data
  rw [← bothMade_eq apart inText] at made
  have cut : (right.splice (left.splice committed)).length = right.start + right.data.length := by
    rw [LocalEdit.splice, replaceRange, List.drop_eq_nil_of_le beyond.le]
    simp
    omega
  omega

theorem SameUpToNumbers.symm {first second : Text} (same : SameUpToNumbers first second) :
    SameUpToNumbers second first :=
  (renumbered_eq_iff second first).mp ((renumbered_eq_iff first second).mpr same).symm

/-- Both kinds of edits put their data in the place of the bytes they replace. -/
theorem LocalEdit.ends_eq (right : LocalEdit) {distance : Nat} {under : Text}
    (length_eq : under.length = distance + (right.stop - right.start)) :
    right.ends distance under =
      (right.data ++ under.drop (right.stop - right.start), under.take distance ++ right.data) := by
  cases right with
  | insert pos content =>
      simp only [start, stop, Nat.sub_self, Nat.add_zero] at length_eq
      simp [ends, data, start, stop, ← length_eq]
  | delete pos len => simp [ends, data, start, stop]

/-- Between the same bytes, texts of one length are alike if and only if they are the same
up to numbers. -/
theorem alikeBetween_iff {before first second after : Text}
    (length_eq : first.length = second.length) :
    AlikeBetween before first second after ↔
      SameUpToNumbers (before ++ first ++ after) (before ++ second ++ after) := by
  rw [sameUpToNumbers_iff]
  constructor
  · rintro (rfl | bytes)
    · exact ⟨rfl, fun _ _ => .inl rfl⟩
    · refine ⟨by simp [length_eq], fun i inside => ?_⟩
      rcases Nat.lt_or_ge i before.length with early | middle
      · exact .inl (by simp [List.getElem?_append_left, early])
      · obtain ⟨j, rfl⟩ := Nat.exists_eq_add_of_le middle
        rw [List.append_assoc, List.append_assoc, List.getElem?_append_right middle,
          List.getElem?_append_right middle, ← List.append_assoc, ← List.append_assoc,
          Nat.add_sub_cancel_left]
        rcases Nat.lt_or_ge j first.length with within | late
        · rw [List.getElem?_append_left within, List.getElem?_append_left (length_eq ▸ within)]
          exact bytes j within
        · rw [List.getElem?_append_right late, List.getElem?_append_right (length_eq ▸ late),
            length_eq]
          exact .inl rfl
  · rintro ⟨-, bytes⟩
    refine .inr fun i within => ?_
    have here := bytes (before.length + i) (by simp only [List.length_append]; omega)
    have shift {middle : Text} (inside : i < middle.length) :
        (before ++ middle ++ after)[before.length + i]? = middle[i]? := by
      rw [List.append_assoc, List.getElem?_append_right (Nat.le_add_right ..),
        Nat.add_sub_cancel_left, List.getElem?_append_left inside]
    rwa [shift within, shift (length_eq ▸ within)] at here

/-- An edit can slide over bytes if and only if it makes the same text of them, up to
numbers, at either end. -/
theorem slides_iff {right : LocalEdit} {working under : Text} {start distance size : Nat}
    (size_eq : size = right.stop - right.start)
    (under_eq : under = (working.drop start).take (distance + size))
    (inside : start + distance + size ≤ working.length) :
    (distance = 0 ∨
      AlikeBetween (working.take start) (right.ends distance under).1
        (right.ends distance under).2 (working.drop (start + distance + size))) ↔
      SameUpToNumbers
        (working.take start ++ right.data ++ under.drop size ++
          working.drop (start + distance + size))
        (working.take start ++ under.take distance ++ right.data ++
          working.drop (start + distance + size)) := by
  have long : under.length = distance + size := by
    rw [under_eq, List.length_take, List.length_drop]
    omega
  rw [right.ends_eq (size_eq ▸ long), ← size_eq]
  have length_eq :
      (right.data ++ under.drop size).length = (under.take distance ++ right.data).length := by
    simp only [List.length_append, List.length_drop, List.length_take]
    omega
  rw [or_iff_right_of_imp, alikeBetween_iff length_eq, ← List.append_assoc, ← List.append_assoc]
  intro unmoved
  have nothing : under.drop size = [] := List.drop_eq_nil_of_le (by omega)
  refine .inl ?_
  rw [nothing, unmoved, List.take_zero, List.append_nil, List.nil_append]

/-- In the text the left edit leaves, the two places of the right edit are the two
ends of the bytes it slides over. -/
theorem slidesFreely_iff {committed : Text} {left right : LocalEdit}
    (apart : left.stop < right.start) (inText : right.stop ≤ committed.length) :
    SlidesFreely committed left right ↔
      right.stop ≤ (left.splice committed).length ∧
        SameUpToNumbers (right.splice (left.splice committed))
          (bothMade committed left right) := by
  have leftOrder := left.start_le_stop
  have rightOrder := right.start_le_stop
  have leftInText : left.stop ≤ committed.length := by omega
  have working := left.length_splice leftInText
  have rightSize : right.start + (right.stop - right.start) = right.stop := by omega
  have raw : right.splice (left.splice committed) =
      replaceRange (left.splice committed) right.start right.stop right.data := rfl
  rw [SlidesFreely, bothMade_eq apart inText, raw]
  apply and_congr_right
  intro reached
  rw [slides_iff rfl rfl (by omega)]
  generalize grown_eq : left.data.length - (left.stop - left.start) = grown
  generalize shrunk_eq : left.stop - left.start - left.data.length = shrunk
  generalize right.stop - right.start = size at rightSize ⊢
  rcases Nat.le_total (left.stop - left.start) left.data.length with grows | shrinks
  · -- the raw place is the near one
    rw [replaceRange_near (by omega : right.start = right.start - shrunk)
        (by omega : right.stop = right.start - shrunk + size)
        (by omega : right.start - shrunk + (grown + shrunk) + size ≤
          (left.splice committed).length),
      replaceRange_far
        (by omega : right.start + left.data.length - (left.stop - left.start) =
          right.start - shrunk + (grown + shrunk))
        (by omega : right.stop + left.data.length - (left.stop - left.start) =
          right.start - shrunk + (grown + shrunk) + size)]
  · -- the raw place is the far one
    rw [replaceRange_far (by omega : right.start = right.start - shrunk + (grown + shrunk))
        (by omega : right.stop = right.start - shrunk + (grown + shrunk) + size),
      replaceRange_near
        (by omega : right.start + left.data.length - (left.stop - left.start) =
          right.start - shrunk)
        (by omega : right.stop + left.data.length - (left.stop - left.start) =
          right.start - shrunk + size)
        (by omega : right.start - shrunk + (grown + shrunk) + size ≤
          (left.splice committed).length)]
    exact ⟨SameUpToNumbers.symm, SameUpToNumbers.symm⟩

/-- Two separate edits of a version window commute exactly when the right one
slides freely. -/
theorem commute_iff_slidesFreely (s : Store) (none : s.pending = [])
    (fits : s.committedText.length < sizeModulus) (left right : LocalEdit)
    (apart : left.stop < right.start) (inText : right.stop ≤ s.committedText.length) :
    Commute s left right ↔ SlidesFreely s.committedText left right := by
  have leftOrder := left.start_le_stop
  have rightOrder := right.start_le_stop
  rw [slidesFreely_iff apart inText, Commute,
    and_iff_left (submitBoth_right_first none fits apart inText),
    submitBoth_eq none (by omega) (by omega) (by omega), ← renumbered_eq_iff]
  by_cases outside : (left.splice s.committedText).length < right.start
  · rw [if_pos outside]
    simp
    omega
  · rw [if_neg outside]
    constructor
    · intro equal
      have texts := (Prod.mk.inj equal).2
      refine ⟨?_, texts⟩
      by_contra beyond
      apply length_splice_ne_bothMade apart inText (Nat.not_lt.mp outside) (Nat.not_le.mp beyond)
      rw [← length_renumbered, texts, length_renumbered]
    · rintro ⟨-, texts⟩
      rw [texts]

/-- Insertions of equal bytes into a run of them slide freely. -/
theorem commute_in_run :
    Commute (Store.snapshot 1 ⟨[], rfl⟩ (ascii "aaaa") 7) (.insert 0 (ascii "a"))
      (.insert 2 (ascii "aa")) :=
  (commute_iff_slidesFreely _ rfl (by decide) _ _ (by decide) (by decide)).mpr (by decide)

/-- The left of two insertions, submitted first, moves the text under the position
of the right one. -/
theorem insertions_do_not_commute :
    let s := (run editStep (Store.fresh 1 ⟨[], rfl⟩)
      [.edit 0 (.insert 0 (some (ascii "abcdef"))), .increment]).1
    let left := LocalEdit.insert 0 (ascii "x")
    let right := LocalEdit.insert 3 (ascii "y")
    bothMade s.committedText left right = ascii "xabcydef" ∧
      submitBoth s right left = ((.success, .success), ascii "xabcydef") ∧
      submitBoth s left right = ((.success, .success), ascii "xabycdef") ∧
      ¬Commute s left right := by
  decide

end CollabMarkdown.Markdown
