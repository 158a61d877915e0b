import CollabMarkdown.Markdown.Session

/-!
# Plain text

A plain text consists of newlines and printable bytes.  Splicing at any offsets,
wrapped around or clamped, only moves bytes of the text and of the data, and
renumbering only writes digits, so a document stays plain under operations whose
data is plain.
-/

namespace CollabMarkdown.Markdown

open CollabMarkdown.CString

/-! ## Texts -/

/-- A newline, or a printable byte. -/
def PlainByte (c : Byte) : Prop :=
  c = newline ∨ (32 ≤ c ∧ c ≤ 126)

instance (c : Byte) : Decidable (PlainByte c) :=
  inferInstanceAs (Decidable (_ ∨ _))

/-- Texts of printable characters and newlines. -/
def PlainText (text : Text) : Prop :=
  ∀ c ∈ text, PlainByte c

instance (text : Text) : Decidable (PlainText text) :=
  List.decidableBAll PlainByte text

@[simp]
theorem plainText_nil : PlainText [] :=
  fun _ member => absurd member List.not_mem_nil

@[simp]
theorem plainText_append {first second : Text} :
    PlainText (first ++ second) ↔ PlainText first ∧ PlainText second :=
  List.forall_mem_append

/-- The bytes of a plain text, in any selection. -/
theorem PlainText.subset {text part : Text} (plain : PlainText text) (inside : part ⊆ text) :
    PlainText part :=
  fun c member => plain c (inside member)

theorem PlainText.take {text : Text} (plain : PlainText text) (n : Nat) :
    PlainText (text.take n) :=
  plain.subset (List.take_subset n text)

theorem PlainText.drop {text : Text} (plain : PlainText text) (n : Nat) :
    PlainText (text.drop n) :=
  plain.subset (List.drop_subset n text)

/-! ## Operations -/

/-- The data of the operation is plain. -/
def Op.Plain : Op → Prop
  | .insert _ data => PlainText data
  | .delete _ _ => True

theorem PlainText.splice {text : Text} (plain : PlainText text) {op : Op} (plainOp : op.Plain) :
    PlainText (op.splice text) := by
  cases op with
  | insert pos data =>
      rw [Op.splice, plainText_append, plainText_append]
      exact ⟨⟨plain.take _, plainOp⟩, plain.drop _⟩
  | delete pos len =>
      rw [Op.splice, plainText_append]
      exact ⟨plain.take _, plain.drop _⟩

theorem PlainText.spliceAll {text : Text} (plain : PlainText text) {ops : List Op}
    (plainOps : ∀ op ∈ ops, op.Plain) : PlainText (spliceAll text ops) := by
  induction ops generalizing text with
  | nil => exact plain
  | cons op rest ih =>
      rw [List.forall_mem_cons] at plainOps
      exact ih (plain.splice plainOps.1) plainOps.2

/-! ## Renumbering -/

/-- The bytes of a text are those of its lines and newlines. -/
theorem plainText_unlines {ls : List Text} :
    PlainText (unlines ls) ↔ ∀ line ∈ ls, PlainText line := by
  induction ls with
  | nil => simp [unlines]
  | cons line rest ih =>
      by_cases more : rest = []
      · subst more
        simp [unlines]
      · have between : PlainByte newline := .inl rfl
        rw [unlines_cons more, plainText_append, List.forall_mem_cons, ← ih]
        exact and_congr_right fun _ => List.forall_mem_cons.trans (and_iff_right between)

theorem PlainText.rewriteLine {line : Text} (plain : PlainText line) {n : Nat} (digit : n ≤ 9) :
    PlainText (rewriteLine n line) := by
  have number : PlainByte (UInt8.ofNat (48 + n)) := by
    interval_cases n <;> decide
  unfold Markdown.rewriteLine
  split
  · exact List.forall_mem_cons.mpr ⟨number, plain.drop 1⟩
  · exact plain

theorem plainText_renumberLines {ls : List Text} (plain : ∀ line ∈ ls, PlainText line) {n : Nat}
    (digit : n ≤ 9) : ∀ line ∈ renumberLines n ls, PlainText line := by
  induction ls generalizing n with
  | nil => exact plain
  | cons line rest ih =>
      rw [List.forall_mem_cons] at plain
      rw [renumberLines, List.forall_mem_cons]
      exact ⟨plain.1.rewriteLine digit, ih plain.2 (numberAfter_le n line)⟩

theorem PlainText.renumbered {text : Text} (plain : PlainText text) :
    PlainText (renumbered text) := by
  rw [renumbered_eq, plainText_unlines]
  rw [← unlines_lines text, plainText_unlines] at plain
  exact plainText_renumberLines plain (by decide)

/-! ## Edit calls -/

/-- The text that a call is given is plain. -/
def Edit.Plain : Edit → Prop
  | .insert _ content => PlainText (content.getD [])
  | .link _ _ url => PlainText (url.getD [])
  | .delete _ _ | .newline _ | .heading _ _ | .bold _ _ | .italic _ _ | .blockquote _
  | .orderedList _ | .unorderedList _ | .code _ _ | .horizontalRule _ => True

theorem dropSpaceOps_plain (working : Text) (pos : Nat) :
    ∀ op ∈ dropSpaceOps working pos, op.Plain := by
  unfold dropSpaceOps
  split
  · exact List.forall_mem_singleton.mpr trivial
  · exact fun _ member => absurd member List.not_mem_nil

theorem blockOps_plain (working : Text) (pos : Nat) {marker : Text} (plain : PlainText marker) :
    ∀ op ∈ blockOps working pos marker, op.Plain := by
  have lineBreak : Op.Plain (.insert pos [newline]) := List.forall_mem_singleton.mpr (.inl rfl)
  unfold blockOps
  split
  · exact List.forall_mem_cons.mpr ⟨lineBreak, List.forall_mem_singleton.mpr plain⟩
  · exact List.forall_mem_singleton.mpr plain

theorem planRange_plain {committed opening closing : Text} {pending ops : List Op}
    {start stop : Nat} (planned : planRange committed pending start stop opening closing = .ok ops)
    (plainOpening : PlainText opening) (plainClosing : PlainText closing) :
    ∀ op ∈ ops, op.Plain := by
  unfold planRange at planned
  split at planned
  · contradiction
  · cases startMoved : transformOps pending start with
    | error r => simp [startMoved, Except.bind] at planned
    | ok adjustedStart =>
        cases stopMoved : transformOps pending stop with
        | error r => simp [startMoved, stopMoved, Except.bind] at planned
        | ok adjustedEnd =>
            simp only [startMoved, stopMoved, Except.bind, Except.ok.injEq] at planned
            subst planned
            exact List.forall_mem_cons.mpr
              ⟨plainClosing, List.forall_mem_singleton.mpr plainOpening⟩

/-- The operations of a call insert its own text and generated markers. -/
theorem Edit.plan_plain (e : Edit) {committed : Text} {pending ops : List Op} (plain : e.Plain)
    (planned : e.plan committed pending = .ok ops) : ∀ op ∈ ops, op.Plain := by
  have lineBreak (pos : Nat) : Op.Plain (.insert pos [CString.newline]) :=
    List.forall_mem_singleton.mpr (.inl rfl)
  cases e with
  | insert pos content =>
      obtain ⟨-, rfl⟩ := planAt_eq_ok planned
      exact List.forall_mem_singleton.mpr plain
  | delete pos len =>
      obtain ⟨-, rfl⟩ := planAt_eq_ok planned
      split
      · exact fun _ member => absurd member List.not_mem_nil
      · exact List.forall_mem_singleton.mpr trivial
  | newline pos =>
      obtain ⟨-, rfl⟩ := planAt_eq_ok planned
      exact List.forall_mem_append.mpr
        ⟨dropSpaceOps_plain _ _, List.forall_mem_singleton.mpr (lineBreak pos)⟩
  | heading level pos =>
      simp only [Edit.plan] at planned
      split at planned
      · contradiction
      · rename_i small
        obtain ⟨-, rfl⟩ := planAt_eq_ok planned
        have bounds : 1 ≤ level ∧ level ≤ 3 := by omega
        apply blockOps_plain
        obtain ⟨least, most⟩ := bounds
        interval_cases level <;> decide
  | blockquote pos | unorderedList pos | horizontalRule pos =>
      obtain ⟨-, rfl⟩ := planAt_eq_ok planned
      exact blockOps_plain _ _ (by decide)
  | orderedList pos =>
      obtain ⟨-, rfl⟩ := planAt_eq_ok planned
      exact List.forall_mem_append.mpr ⟨dropSpaceOps_plain _ _, blockOps_plain _ _ (by decide)⟩
  | bold start stop | italic start stop | code start stop =>
      exact planRange_plain planned (by decide) (by decide)
  | link start stop url =>
      cases url with
      | none => contradiction
      | some url =>
          apply planRange_plain planned (by decide)
          rw [plainText_append, plainText_append]
          exact ⟨⟨by decide, plain⟩, by decide⟩

/-! ## Stores -/

namespace Store

/-- The committed text and the data of the pending operations are plain. -/
structure Plain (s : Store) : Prop where
  committed : PlainText s.committedText
  pending : ∀ op ∈ s.pending, op.Plain

variable {s : Store}

theorem Plain.workingText (plain : s.Plain) : PlainText s.workingText :=
  plain.committed.spliceAll plain.pending

theorem Plain.enqueueAll (plain : s.Plain) {ops : List Op} (plainOps : ∀ op ∈ ops, op.Plain) :
    (s.enqueueAll ops).Plain where
  committed := by
    rw [committedText_enqueueAll]
    exact plain.committed
  pending := by
    rw [pending_enqueueAll]
    exact List.forall_mem_append.mpr ⟨plain.pending, plainOps⟩

theorem Plain.commit (plain : s.Plain) : s.commit.Plain where
  committed := plain.workingText.renumbered
  pending := by
    rw [pending_commit]
    exact fun _ member => absurd member List.not_mem_nil

end Store

end CollabMarkdown.Markdown
