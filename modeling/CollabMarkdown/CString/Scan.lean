import CollabMarkdown.CString.Basic

/-!
# Reading C strings

Functional forms of the library scanners: `strtok_r` with a one-byte delimiter,
`strtoul` in base ten, and `fgets` on the bytes waiting in a stream.
-/

namespace CollabMarkdown.CString

/-! ## Tokens -/

/-- One call of `strtok_r`: the token, if any, and the saved pointer.  The
pointer is left just past the delimiter that ended the token, or at the
terminator when the token ended the string. -/
def strtokR (delim : Byte) (s : Text) : Option Text × Text :=
  let s := s.dropWhile (· == delim)
  if s.isEmpty then
    (none, [])
  else
    (some (s.takeWhile (· != delim)), (s.dropWhile (· != delim)).drop 1)

/-! ## Numbers -/

/-- The value of a string of decimal digits. -/
def digitsValue (digits : Text) : Nat :=
  digits.foldl (fun value c => 10 * value + (c.toNat - 48)) 0

/-- An optional sign and what follows it. -/
def takeSign : Text → Bool × Text
  | c :: rest =>
      if c = 45 then (true, rest) else if c = 43 then (false, rest) else (false, c :: rest)
  | [] => (false, [])

/-- `strtoul` in base ten: the value and the string left at `*end`.  A value
above `ULONG_MAX` saturates, a minus sign negates modulo `2 ^ 64`, and a string
without digits is returned whole. -/
def strtoul (s : Text) : Nat × Text :=
  let signed := takeSign (s.dropWhile isspace)
  let digits := signed.2.takeWhile isdigit
  if digits.isEmpty then
    (0, s)
  else
    let value := digitsValue digits
    let result :=
      if sizeModulus ≤ value then sizeModulus - 1
      else if signed.1 then sizeSub 0 value
      else value
    (result, signed.2.dropWhile isdigit)

/-! ## Lines -/

/-- The bytes `fgets` takes from `pending` with a buffer of `size` bytes: at most
`size - 1`, up to and including the first newline. -/
def fgetsTake (size : Nat) (pending : Text) : Text :=
  let window := pending.take (size - 1)
  let line := window.takeWhile (· != newline)
  window.take (line.length + 1)

/-- `fgets` on the bytes waiting in a stream, `closed` when no more will come.
The result is absent while the call would block; otherwise it holds the bytes
read, absent at end of file, and the bytes that stay. -/
def fgets (size : Nat) (closed : Bool) (pending : Text) : Option (Option Text × Text) :=
  let line := fgetsTake size pending
  if newline ∈ line ∨ size - 1 ≤ line.length ∨ closed then
    some (if line.isEmpty then none else some line, pending.drop line.length)
  else
    none

/-! ## Blocks -/

/-- How many bytes each call of `fread` delivers, from the number of the call, the
bytes wanted and the bytes there are.  A call may stop short, but not at zero
while there is something to deliver. -/
structure ShortReads where
  count : Nat → Nat → Nat → Nat
  count_pos : ∀ call {wanted available : Nat}, 0 < wanted → 0 < available →
    0 < count call wanted available
  count_le : ∀ call wanted available, count call wanted available ≤ min wanted available

/-- One call of `fread` for `wanted` bytes: the bytes delivered, none at end of file,
and those that stay.  It is absent while the call would block. -/
def fread (reads : ShortReads) (call wanted : Nat) (closed : Bool) (pending : Text) :
    Option (Text × Text) :=
  if pending.isEmpty then
    if closed then some ([], []) else none
  else
    let n := reads.count call wanted pending.length
    some (pending.take n, pending.drop n)

/-! ## Buffers -/

/-- A buffer read as a C string ends at its first NUL. -/
def untilNul (buffer : Text) : Text :=
  buffer.takeWhile (· != 0)

end CollabMarkdown.CString
