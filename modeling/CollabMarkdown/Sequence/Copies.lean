import Mathlib.Data.List.Basic

/-!
# Filling a buffer by copies

A copy takes some items of a source to a place in a buffer.  Copies whose
destinations follow each other and fill the buffer leave in it what they took,
one after the other, and nothing of what was there before.
-/

namespace CollabMarkdown.Sequence

universe u

/-- `count` items of `source` from `offset` on, for the place `dest`. -/
structure Copy (α : Type u) where
  source : List α
  offset : Nat
  dest : Nat
  count : Nat
  deriving DecidableEq, Repr

namespace Copy

variable {α : Type u}

/-- The copy reads nothing outside its source. -/
def InBounds (copy : Copy α) : Prop :=
  copy.offset + copy.count ≤ copy.source.length

instance (copy : Copy α) : Decidable copy.InBounds :=
  inferInstanceAs (Decidable (_ ≤ _))

/-- The items taken. -/
def items (copy : Copy α) : List α :=
  (copy.source.drop copy.offset).take copy.count

/-- The buffer after the copy. -/
def write (buffer : List α) (copy : Copy α) : List α :=
  buffer.take copy.dest ++ copy.items ++ buffer.drop (copy.dest + copy.count)

/-- The destinations of the copies follow each other from `start` to `stop`. -/
def Tiles : Nat → List (Copy α) → Nat → Prop
  | start, [], stop => start = stop
  | start, copy :: rest, stop => copy.dest = start ∧ Tiles (start + copy.count) rest stop

theorem length_items {copy : Copy α} (inBounds : copy.InBounds) :
    copy.items.length = copy.count := by
  rw [items, List.length_take, List.length_drop]
  exact Nat.min_eq_left (Nat.le_sub_of_add_le' inBounds)

/-- A copy inside a buffer keeps its length. -/
theorem length_write {copy : Copy α} (inBounds : copy.InBounds) {buffer : List α}
    (room : copy.dest + copy.count ≤ buffer.length) :
    (write buffer copy).length = buffer.length := by
  rw [write, List.length_append, List.length_append, List.length_take, List.length_drop,
    length_items inBounds]
  omega

theorem Tiles.start_le {start stop : Nat} {copies : List (Copy α)}
    (tiles : Tiles start copies stop) : start ≤ stop := by
  induction copies generalizing start with
  | nil => exact Nat.le_of_eq tiles
  | cons copy rest ih => exact Nat.le_trans (Nat.le_add_right _ _) (ih tiles.2)

/-- Copies that tile the rest of a buffer overwrite all of it. -/
theorem foldl_write {start stop : Nat} {copies : List (Copy α)} (tiles : Tiles start copies stop)
    (inBounds : ∀ copy ∈ copies, copy.InBounds) {buffer : List α} (size : buffer.length = stop) :
    copies.foldl write buffer = buffer.take start ++ copies.flatMap items := by
  induction copies generalizing start buffer with
  | nil =>
      rw [List.foldl_nil, List.flatMap_nil, List.append_nil,
        List.take_of_length_le (Nat.le_of_eq (size.trans tiles.symm))]
  | cons copy rest ih =>
      obtain ⟨here, later⟩ := tiles
      have taken := length_items (inBounds copy List.mem_cons_self)
      have room : copy.dest + copy.count ≤ buffer.length := by
        rw [here, size]
        exact later.start_le
      have front : (buffer.take copy.dest ++ copy.items).length = start + copy.count := by
        rw [List.length_append, List.length_take, taken, ← here]
        omega
      have filled : (write buffer copy).length = stop :=
        (length_write (inBounds copy List.mem_cons_self) room).trans size
      rw [List.foldl_cons, ih later (fun other member => inBounds other (.tail _ member)) filled,
        write, ← front, List.take_left, here, List.flatMap_cons, List.append_assoc]

end Copy

end CollabMarkdown.Sequence
