import CollabMarkdown.CString.Basic
import CollabMarkdown.Sequence.Copies

/-!
# Blocks of memory

A block has a fixed number of bytes, and every access to it is checked: outside
the block it has no result.  A program written with these accesses that has a
result has stayed inside its blocks.
-/

namespace CollabMarkdown.CString

open CollabMarkdown.Sequence

/-- A block of `size` bytes. -/
structure Block (size : Nat) where
  bytes : Text
  length_eq : bytes.length = size

/-- The bytes of a C string in memory. -/
def terminated (text : Text) : Text :=
  text ++ [0]

@[simp]
theorem length_terminated (text : Text) : (terminated text).length = text.length + 1 := by
  simp [terminated]

namespace Block

variable {size : Nat}

/-- The block of a C string. -/
def ofText (text : Text) : Block (text.length + 1) :=
  ⟨terminated text, length_terminated text⟩

/-- Read a byte, within the bounds of the block. -/
def load (block : Block size) (k : Nat) : Option Byte :=
  block.bytes[k]?

/-- Write a byte, within the bounds of the block. -/
def store (block : Block size) (k : Nat) (c : Byte) : Option (Block size) :=
  if k < size then
    some ⟨block.bytes.set k c, by rw [List.length_set, block.length_eq]⟩
  else
    none

/-- `memcpy` of `count` bytes from `offset` in a source to `dest`. -/
def memcpy {sourceSize : Nat} (block : Block size) (dest : Nat) (source : Block sourceSize)
    (offset count : Nat) : Option (Block size) :=
  let copy : Copy Byte := ⟨source.bytes, offset, dest, count⟩
  if inside : copy.InBounds ∧ dest + count ≤ size then
    some ⟨Copy.write block.bytes copy, by
      rw [Copy.length_write inside.1 (by rw [block.length_eq]; exact inside.2),
        block.length_eq]⟩
  else
    none

/-- A C string can be read up to its terminator. -/
theorem load_ofText {text : Text} {k : Nat} (inside : k ≤ text.length) :
    (ofText text).load k = some (byteAt text k) := by
  change (text ++ [0])[k]? = some (text.getD k 0)
  rw [List.getD_eq_getElem?_getD]
  rcases Nat.lt_or_eq_of_le inside with before | rfl
  · rw [List.getElem?_append_left before, List.getElem?_eq_getElem before, Option.getD_some]
  · simp

/-- In front of the terminator the block holds what the text does. -/
theorem take_drop_ofText {text : Text} {offset count : Nat}
    (inside : offset + count ≤ text.length) :
    ((ofText text).bytes.drop offset).take count = (text.drop offset).take count := by
  change ((text ++ [0]).drop offset).take count = _
  rw [List.drop_append_of_le_length (Nat.le_of_add_right_le inside),
    List.take_append_of_le_length]
  rw [List.length_drop]
  exact Nat.le_sub_of_add_le' inside

/-- Filling a block from the front: a byte behind those already written. -/
theorem store_next {block : Block size} {written : Text} (front : written <+: block.bytes)
    (room : written.length < size) (c : Byte) :
    ∃ next, block.store written.length c = some next ∧ written ++ [c] <+: next.bytes := by
  obtain ⟨rest, whole⟩ := front
  refine ⟨_, if_pos room, ?_⟩
  cases rest with
  | nil =>
      have full := block.length_eq
      rw [← whole, List.append_nil] at full
      omega
  | cons old rest =>
      exact ⟨rest, by simp [← whole]⟩

/-- Filling a block from the front: a copy behind the bytes already written. -/
theorem memcpy_next {sourceSize : Nat} {block : Block size} {written : Text}
    (front : written <+: block.bytes) (source : Block sourceSize) {offset count : Nat}
    (inside : offset + count ≤ sourceSize) (room : written.length + count ≤ size) :
    ∃ next, block.memcpy written.length source offset count = some next ∧
      written ++ (source.bytes.drop offset).take count <+: next.bytes := by
  have inBounds : (Copy.mk source.bytes offset written.length count).InBounds := by
    rw [Copy.InBounds, source.length_eq]
    exact inside
  refine ⟨_, dif_pos ⟨inBounds, room⟩, ?_⟩
  obtain ⟨rest, whole⟩ := front
  refine ⟨block.bytes.drop (written.length + count), ?_⟩
  simp [Copy.write, Copy.items, ← whole]

end Block

end CollabMarkdown.CString
