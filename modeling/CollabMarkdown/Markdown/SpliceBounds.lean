import CollabMarkdown.CString.Memory
import CollabMarkdown.Markdown.Pending

/-!
# The copies of `apply_single_op`

The new text is built by two or three copies whose sizes and offsets are `size_t`
values, computed without regard to overflow.  They stay inside their buffers
and fill the allocated one for every position and length, also where the
position and the length of a deletion wrap around when added: the sum is then
smaller than the position, and the text is continued from there.
-/

namespace CollabMarkdown.Markdown

open CollabMarkdown.CString
open CollabMarkdown.Sequence

/-! ## The calls of `memcpy` -/

/-- The calls of `memcpy` in `apply_single_op`, in order. -/
def Op.copies (text : Text) : Op → List (Copy Byte)
  | .insert pos data =>
      let oldLen := text.length
      let pos := clampPos oldLen pos
      let dataLen := data.length
      [⟨terminated text, 0, 0, pos⟩,
        ⟨data, 0, pos, dataLen⟩,
        ⟨terminated text, pos, sizeAdd pos dataLen, sizeAdd (sizeSub oldLen pos) 1⟩]
  | .delete pos len =>
      let oldLen := text.length
      let pos := clampPos oldLen pos
      let len := clampLen oldLen pos len
      [⟨terminated text, 0, 0, pos⟩,
        ⟨terminated text, sizeAdd pos len, pos,
          sizeAdd (sizeSub (sizeSub oldLen pos) len) 1⟩]

/-- The size it allocates. -/
def Op.allocated (oldLen : Nat) : Op → Nat
  | .insert _ data => sizeAdd (sizeAdd oldLen data.length) 1
  | .delete pos len => sizeAdd (sizeSub oldLen (clampLen oldLen (clampPos oldLen pos) len)) 1

/-- The position and the length are values of type `size_t`. -/
def Op.WordSized : Op → Prop
  | .insert pos _ => pos < sizeModulus
  | .delete pos len => pos < sizeModulus ∧ len < sizeModulus

instance : (op : Op) → Decidable op.WordSized
  | .insert pos _ => inferInstanceAs (Decidable (pos < sizeModulus))
  | .delete pos len => inferInstanceAs (Decidable (pos < sizeModulus ∧ len < sizeModulus))

/-- The length of the text that an operation inserts. -/
def Op.dataLength : Op → Nat
  | .insert _ data => data.length
  | .delete _ _ => 0

/-! ## Arithmetic -/

theorem clampPos_le (oldLen pos : Nat) : clampPos oldLen pos ≤ oldLen := by
  unfold clampPos
  split <;> omega

/-- The clamped length of a deletion either fits behind the position, or makes the sum
wrap around to a place in front of it. -/
theorem clampLen_cases {oldLen pos len : Nat} (inside : pos ≤ oldLen) (word : len < sizeModulus) :
    pos + clampLen oldLen pos len ≤ oldLen ∨
      clampLen oldLen pos len < sizeModulus ∧ sizeModulus ≤ pos + clampLen oldLen pos len := by
  unfold clampLen
  split
  case isTrue clamped => exact .inl (by omega)
  case isFalse kept =>
    by_cases wraps : sizeModulus ≤ pos + len
    · exact .inr ⟨word, wraps⟩
    · rw [sizeAdd_of_lt (by omega)] at kept
      exact .inl (by omega)

/-- The sizes of a deletion agree: the offset it continues from, the bytes it copies
from there, and the bytes it allocates. -/
theorem delete_sizes {oldLen pos len : Nat} (short : oldLen < 2 ^ 63) (inside : pos ≤ oldLen)
    (cases : pos + len ≤ oldLen ∨ len < sizeModulus ∧ sizeModulus ≤ pos + len) :
    sizeAdd pos len + sizeAdd (sizeSub (sizeSub oldLen pos) len) 1 = oldLen + 1 ∧
      0 < sizeAdd (sizeSub (sizeSub oldLen pos) len) 1 ∧
      pos + sizeAdd (sizeSub (sizeSub oldLen pos) len) 1 = sizeAdd (sizeSub oldLen len) 1 := by
  have modulus := sizeModulus_eq
  have rest : sizeSub oldLen pos = oldLen - pos := sizeSub_of_le inside
  rw [rest]
  rcases cases with fits | ⟨word, wraps⟩
  · have source : sizeAdd pos len = pos + len := sizeAdd_of_lt (by omega)
    have tail : sizeSub (oldLen - pos) len = oldLen - pos - len := sizeSub_of_le (by omega)
    have whole : sizeSub oldLen len = oldLen - len := sizeSub_of_le (by omega)
    rw [source, tail, whole, sizeAdd_of_lt (by omega), sizeAdd_of_lt (by omega)]
    omega
  · have source : sizeAdd pos len = pos + len - sizeModulus :=
      sizeAdd_of_wraps wraps (by omega)
    have tail : sizeSub (oldLen - pos) len = oldLen - pos + sizeModulus - len :=
      sizeSub_of_lt (by omega)
    have whole : sizeSub oldLen len = oldLen + sizeModulus - len := sizeSub_of_lt (by omega)
    rw [source, tail, whole, sizeAdd_of_lt (by omega), sizeAdd_of_lt (by omega)]
    omega

/-- Without overflow that is the size of the new text. -/
theorem allocated_eq_spliceSize {oldLen : Nat} {op : Op}
    (fits : op.dataLength + oldLen < sizeModulus - 1) :
    op.allocated oldLen = op.spliceSize oldLen := by
  cases op with
  | delete pos len => rfl
  | insert pos data =>
      change data.length + oldLen < sizeModulus - 1 at fits
      rw [Op.allocated, sizeAdd_of_lt (a := oldLen) (by omega), sizeAdd_of_lt (by omega)]
      rfl

/-! ## Bounds -/

/-- What every splice does with memory: it copies from inside its sources, its
destinations fill the allocated buffer one after the other, and the last byte it
copies is the terminator of the old text. -/
structure SplicesInBounds (text : Text) (op : Op) : Prop where
  inBounds : ∀ copy ∈ op.copies text, copy.InBounds
  tiles : Copy.Tiles 0 (op.copies text) (op.allocated text.length)
  terminated : ∃ last ∈ (op.copies text).getLast?, 0 < last.count ∧
    last.source = terminated text ∧ last.offset + last.count = text.length + 1

theorem insert_inBounds {text data : Text} (pos : Nat)
    (fits : data.length + text.length < sizeModulus - 1) :
    SplicesInBounds text (.insert pos data) := by
  have inside := clampPos_le text.length pos
  have rest : sizeSub text.length (clampPos text.length pos) =
      text.length - clampPos text.length pos := sizeSub_of_le inside
  have tail : sizeAdd (text.length - clampPos text.length pos) 1 =
      text.length - clampPos text.length pos + 1 := sizeAdd_of_lt (by omega)
  have middle : sizeAdd (clampPos text.length pos) data.length =
      clampPos text.length pos + data.length := sizeAdd_of_lt (by omega)
  have whole : (Op.insert pos data).allocated text.length = text.length + data.length + 1 :=
    allocated_eq_spliceSize fits
  constructor
  · simp only [Op.copies, List.forall_mem_cons, Copy.InBounds, length_terminated, rest, tail]
    exact ⟨by omega, by omega, by omega, fun copy none => absurd none List.not_mem_nil⟩
  · rw [whole]
    simp only [Op.copies, Copy.Tiles, rest, tail, middle, true_and]
    omega
  · refine ⟨_, rfl, ?_, rfl, ?_⟩
    · change 0 < sizeAdd (sizeSub text.length (clampPos text.length pos)) 1
      rw [rest, tail]
      exact Nat.succ_pos _
    · change clampPos text.length pos +
        sizeAdd (sizeSub text.length (clampPos text.length pos)) 1 = text.length + 1
      rw [rest, tail]
      omega

theorem delete_inBounds {text : Text} (pos : Nat) {len : Nat} (short : text.length < 2 ^ 63)
    (word : len < sizeModulus) : SplicesInBounds text (.delete pos len) := by
  have inside := clampPos_le text.length pos
  obtain ⟨source, positive, whole⟩ := delete_sizes short inside (clampLen_cases inside word)
  constructor
  · simp only [Op.copies, List.forall_mem_cons, Copy.InBounds, length_terminated]
    exact ⟨by omega, by omega, fun copy none => absurd none List.not_mem_nil⟩
  · simp only [Op.copies, Op.allocated, Copy.Tiles, Nat.zero_add, true_and]
    exact whole
  · exact ⟨_, rfl, positive, rfl, source⟩

/-! ## Contents -/

/-- A copy from the end of a text takes the terminator along. -/
theorem items_of_tail {text : Text} {offset dest count : Nat} (some_left : 0 < count)
    (tail : offset + count = text.length + 1) :
    (Copy.mk (terminated text) offset dest count).items = terminated (text.drop offset) := by
  have inside : offset ≤ text.length := by omega
  have taken : (terminated (text.drop offset)).length = count := by
    rw [length_terminated, List.length_drop]
    omega
  rw [Copy.items, terminated, List.drop_append_of_le_length inside]
  exact List.take_of_length_le (Nat.le_of_eq taken)

theorem items_of_front (text : Text) {dest count : Nat} (inside : count ≤ text.length) :
    (Copy.mk (terminated text) 0 dest count).items = text.take count :=
  List.take_append_of_le_length inside

/-- The copies together take the spliced text. -/
theorem flatMap_items_copies {text : Text} {op : Op} (bounds : SplicesInBounds text op) :
    (op.copies text).flatMap Copy.items = terminated (op.splice text) := by
  obtain ⟨last, isLast, positive, -, tail⟩ := bounds.terminated
  cases op with
  | insert pos data =>
      obtain rfl := Option.some.inj isLast
      simp only [List.getLast_cons_cons, List.getLast_singleton] at positive tail
      have whole : (Copy.mk data 0 (clampPos text.length pos) data.length).items = data :=
        List.take_length
      simp only [Op.copies, List.flatMap_cons, List.flatMap_nil, List.append_nil,
        items_of_front text (clampPos_le _ _), whole, items_of_tail positive tail]
      simp [terminated, Op.splice]
  | delete pos len =>
      obtain rfl := Option.some.inj isLast
      simp only [List.getLast_cons_cons, List.getLast_singleton] at positive tail
      simp only [Op.copies, List.flatMap_cons, List.flatMap_nil, List.append_nil,
        items_of_front text (clampPos_le _ _), items_of_tail positive tail]
      simp [terminated, Op.splice]

/-- For every operation on a text of less than `2 ^ 63` bytes, `apply_single_op` copies
from inside its sources, fills the buffer it allocates, the last byte being the
terminator, and leaves the spliced text there, whatever the buffer held. -/
theorem applySingleOp_inBounds {text : Text} {op : Op} (short : text.length < 2 ^ 63)
    (word : op.WordSized) (fits : op.dataLength + text.length < sizeModulus - 1) :
    SplicesInBounds text op ∧
      ∀ buffer : Text, buffer.length = op.allocated text.length →
        (op.copies text).foldl Copy.write buffer = terminated (op.splice text) := by
  have bounds : SplicesInBounds text op := by
    cases op with
    | insert pos data => exact insert_inBounds pos fits
    | delete pos len => exact delete_inBounds pos short word.2
  refine ⟨bounds, ?_⟩
  intro buffer size
  rw [Copy.foldl_write bounds.tiles bounds.inBounds size, List.take_zero, List.nil_append,
    flatMap_items_copies bounds]

/-- A deletion whose end wraps around to position 2: the text is continued from there. -/
theorem applySingleOp_inBounds_wrapped :
    (Op.delete 3 (2 ^ 64 - 1)).splice (ascii "hello") = ascii "helllo" ∧
      SplicesInBounds (ascii "hello") (.delete 3 (2 ^ 64 - 1)) :=
  ⟨by decide, (applySingleOp_inBounds (by decide) (by decide) (by decide)).1⟩

end CollabMarkdown.Markdown
