import Mathlib.Algebra.Group.Nat.Defs
import Mathlib.Data.List.Basic

/-!
# C strings, `size_t` and allocation

A C string is represented by its bytes before the terminating NUL, so `strlen`
is the length of the list.  Sizes are natural numbers: a sum of lengths of
strings that exist in memory is exact, and only the sums and differences that
take a number chosen by a caller go through `sizeAdd` and `sizeSub`, which
reduce modulo `2 ^ 64`.

Allocation is an effect of an arbitrary monad.  The identity monad is a process
whose allocations all succeed.
-/

namespace CollabMarkdown.CString

/-! ## Bytes -/

/-- One byte, `unsigned char`. -/
abbrev Byte := UInt8

/-- The bytes of a C string before its terminator. -/
abbrev Text := List Byte

/-- The bytes of an ASCII string literal. -/
def ascii (literal : String) : Text :=
  literal.toList.map fun c => UInt8.ofNat c.toNat

/-- The newline character. -/
abbrev newline : Byte := 10

/-- The space character. -/
abbrev space : Byte := 32

/-- The byte a pointer reads at offset `k`: the terminator reads as NUL. -/
def byteAt (text : Text) (k : Nat) : Byte :=
  text.getD k 0

@[simp]
theorem byteAt_nil (k : Nat) : byteAt [] k = 0 :=
  rfl

@[simp]
theorem byteAt_cons_zero (c : Byte) (text : Text) : byteAt (c :: text) 0 = c :=
  rfl

@[simp]
theorem byteAt_cons_succ (c : Byte) (text : Text) (k : Nat) :
    byteAt (c :: text) (k + 1) = byteAt text k :=
  rfl

/-- A string without a byte lies in front of that byte. -/
theorem takeWhile_append_of_notMem {stop : Byte} {text : Text} (absent : stop ∉ text)
    (rest : Text) :
    (text ++ rest).takeWhile (· != stop) = text ++ rest.takeWhile (· != stop) := by
  apply List.takeWhile_append_of_pos
  intro c member
  simpa using fun same : c = stop => absent (same ▸ member)

theorem takeWhile_of_notMem {stop : Byte} {text : Text} (absent : stop ∉ text) :
    text.takeWhile (· != stop) = text := by
  simpa using takeWhile_append_of_notMem absent []

/-- `isdigit` in the C locale. -/
def isdigit (c : Byte) : Bool :=
  48 ≤ c && c ≤ 57

/-- `isspace` in the C locale: blank, and tab through carriage return. -/
def isspace (c : Byte) : Bool :=
  c == space || (9 ≤ c && c ≤ 13)

/-! ## `size_t` arithmetic -/

/-- The number of values of a 64-bit `size_t`. -/
abbrev sizeModulus : Nat := UInt64.size

/-- `a + b`, reduced when it does not fit. -/
def sizeAdd (a b : Nat) : Nat :=
  (a + b) % sizeModulus

/-- `a - b`, wrapping around below zero. -/
def sizeSub (a b : Nat) : Nat :=
  if b ≤ a then a - b else a + sizeModulus - b

theorem sizeAdd_of_lt {a b : Nat} (fits : a + b < sizeModulus) : sizeAdd a b = a + b :=
  Nat.mod_eq_of_lt fits

theorem sizeAdd_le (a b : Nat) : sizeAdd a b ≤ a + b :=
  Nat.mod_le _ _

theorem sizeSub_of_le {a b : Nat} (ordered : b ≤ a) : sizeSub a b = a - b :=
  if_pos ordered

theorem sizeModulus_eq : sizeModulus = 2 ^ 64 :=
  rfl

/-- A sum that wraps around once. -/
theorem sizeAdd_of_wraps {a b : Nat} (wraps : sizeModulus ≤ a + b)
    (once : a + b < 2 * sizeModulus) : sizeAdd a b = a + b - sizeModulus := by
  rw [sizeAdd, Nat.mod_eq_sub_mod wraps, Nat.mod_eq_of_lt (by omega)]

/-- A difference below zero. -/
theorem sizeSub_of_lt {a b : Nat} (below : a < b) : sizeSub a b = a + sizeModulus - b :=
  if_neg (Nat.not_le.mpr below)

/-! ## Allocation -/

/-- `malloc size` answers whether the allocation succeeded. -/
class MonadMalloc (m : Type → Type) where
  malloc : Nat → m Bool

export MonadMalloc (malloc)

/-- A process that never runs out of memory. -/
instance : MonadMalloc Id where
  malloc _ := pure true

@[simp]
theorem run_malloc (size : Nat) : Id.run (malloc size) = true :=
  rfl

variable {m : Type → Type} [Monad m] [MonadMalloc m]

/-- Copy a string into fresh memory.  The source repeats this helper in each of
its files; a NULL string has no copy. -/
def strdup : Option Text → m (Option Text)
  | none => return none
  | some s => do
      if ← malloc (s.length + 1) then
        return some s
      else
        return none

@[simp]
theorem run_strdup (s : Option Text) : Id.run (strdup s) = s := by
  cases s <;> simp [strdup]

/-! ## Formatted output -/

/-- The decimal digits printed by `%llu` and `%zu`. -/
def decimal (n : Nat) : Text :=
  (Nat.toDigits 10 n).map fun c => UInt8.ofNat c.toNat

/-- What `snprintf` stores before the terminator in a buffer of `size` bytes,
for a conversion whose full result is `formatted`. -/
def snprintf (size : Nat) (formatted : Text) : Text :=
  formatted.take (size - 1)

theorem snprintf_of_length_lt {size : Nat} {formatted : Text}
    (fits : formatted.length < size) : snprintf size formatted = formatted :=
  List.take_of_length_le (by omega)

/-- `INT_MAX`. -/
def intMax : Nat := 2147483647

/-- What `snprintf` returns: an `int`, which is the length of the full result, or -1 where
no `int` can be. -/
def snprintfResult (formatted : Text) : Int :=
  if formatted.length ≤ intMax then formatted.length else -1

theorem snprintfResult_of_le {formatted : Text} (fits : formatted.length ≤ intMax) :
    snprintfResult formatted = formatted.length :=
  if_pos fits

theorem snprintfResult_le (formatted : Text) : snprintfResult formatted ≤ formatted.length := by
  unfold snprintfResult
  split <;> omega

theorem snprintfResult_of_lt {formatted : Text} (wide : intMax < formatted.length) :
    snprintfResult formatted = -1 :=
  if_neg (Nat.not_le.mpr wide)

end CollabMarkdown.CString
