import Mathlib.Data.List.DropRight
import CollabMarkdown.CString.Scan

/-!
# Tokens in a buffer

`strtok` works in place: it ends a token by writing a NUL over its delimiter, and
hands out pointers into the buffer.  `strtok` here is the function on strings that
a caller has in mind, and `strtokAt` what a call does to a buffer at an offset; the
two agree on the string that starts there, and the call leaves the strings in front
of it alone.
-/

namespace CollabMarkdown.CString

/-! ## Strings in a buffer -/

/-- The C string at an offset of a buffer. -/
def stringAt (buffer : Text) (off : Nat) : Text :=
  untilNul (buffer.drop off)

/-- Writing a NUL cuts a string there. -/
theorem untilNul_set (buffer : Text) (i : Nat) :
    untilNul (buffer.set i 0) = (untilNul buffer).take i := by
  induction buffer generalizing i with
  | nil => simp [untilNul]
  | cons c rest ih =>
      cases i with
      | zero => simp [untilNul]
      | succ i =>
          rw [untilNul] at ih
          by_cases nul : c = 0
          · simp [untilNul, nul]
          · simpa [untilNul, nul] using ih i

theorem stringAt_set (buffer : Text) {i off : Nat} (inside : off ≤ i) :
    stringAt (buffer.set i 0) off = (stringAt buffer off).take (i - off) := by
  rw [stringAt, List.drop_set, if_neg (Nat.not_lt.mpr inside), untilNul_set, stringAt]

theorem stringAt_set_of_lt (buffer : Text) {i off : Nat} (before : i < off) :
    stringAt (buffer.set i 0) off = stringAt buffer off := by
  rw [stringAt, List.drop_set, if_pos before, stringAt]

/-- The string further on in a string. -/
theorem stringAt_add {buffer : Text} {off k : Nat} (inside : k ≤ (stringAt buffer off).length) :
    stringAt buffer (off + k) = (stringAt buffer off).drop k := by
  rw [stringAt, ← List.drop_drop]
  unfold stringAt at inside ⊢
  generalize buffer.drop off = text at inside ⊢
  induction k generalizing text with
  | zero => rfl
  | succ k ih =>
      cases text with
      | nil => simp [untilNul] at inside
      | cons c rest =>
          by_cases nul : c = 0
          · simp [untilNul, nul] at inside
          · have shorter : k ≤ (untilNul rest).length := by
              simpa [untilNul, nul] using inside
            have cons : untilNul (c :: rest) = c :: untilNul rest := by simp [untilNul, nul]
            rw [List.drop_succ_cons, cons, List.drop_succ_cons]
            exact ih rest shorter

/-! ## Tokens -/

theorem drop_length_takeWhile (p : Byte → Bool) (s : Text) :
    s.drop (s.takeWhile p).length = s.dropWhile p :=
  calc
    s.drop (s.takeWhile p).length
        = (s.takeWhile p ++ s.dropWhile p).drop (s.takeWhile p).length := by
          rw [List.takeWhile_append_dropWhile]
    _ = s.dropWhile p := List.drop_left

/-- The next token of a string, and what is left of the string behind it. -/
def strtok (delims s : Text) : Option Text × Text :=
  let s := s.dropWhile (· ∈ delims)
  if s.isEmpty then
    (none, [])
  else
    (some (s.takeWhile (· ∉ delims)), (s.dropWhile (· ∉ delims)).drop 1)

/-- One call of `strtok` on the string at an offset: the offset of the token, where the
next call goes on, and the buffer with the token ended. -/
def strtokAt (delims buffer : Text) (off : Nat) : Option Nat × Nat × Text :=
  let s := stringAt buffer off
  let start := off + (s.takeWhile (· ∈ delims)).length
  let s := s.dropWhile (· ∈ delims)
  if s.isEmpty then
    (none, start, buffer)
  else
    let stop := start + (s.takeWhile (· ∉ delims)).length
    if (s.dropWhile (· ∉ delims)).isEmpty then
      (some start, stop, buffer)
    else
      (some start, stop + 1, buffer.set stop 0)

/-- What a call can do: find nothing but delimiters, a token that ends the string, or a
token with more behind it. -/
theorem strtokAt_cases (delims buffer : Text) (off : Nat) :
    let s := stringAt buffer off
    let out := strtokAt delims buffer off
    ∃ start rest, off ≤ start ∧ stringAt buffer start = rest ∧
      ((rest = [] ∧ strtok delims s = (none, []) ∧ out = (none, start, buffer)) ∨
      ∃ token tail, token ++ tail = rest ∧ strtok delims s = (some token, tail.drop 1) ∧
        ((tail = [] ∧ out = (some start, start + token.length, buffer)) ∨
        (tail ≠ [] ∧ out = (some start, start + token.length + 1,
          buffer.set (start + token.length) 0)))) := by
  intro s out
  have skipped : (s.takeWhile (· ∈ delims)).length ≤ s.length :=
    (List.takeWhile_prefix _).length_le
  refine ⟨off + (s.takeWhile (· ∈ delims)).length, s.dropWhile (· ∈ delims),
    Nat.le_add_right _ _, ?_, ?_⟩
  · rw [stringAt_add skipped, drop_length_takeWhile]
  · by_cases empty : (s.dropWhile (· ∈ delims)).isEmpty
    · left
      refine ⟨by simpa using empty, ?_, ?_⟩
      · simp only [strtok, if_pos empty]
      · simp only [out, strtokAt, s, if_pos empty]
    · right
      refine ⟨(s.dropWhile (· ∈ delims)).takeWhile (· ∉ delims),
        (s.dropWhile (· ∈ delims)).dropWhile (· ∉ delims), List.takeWhile_append_dropWhile, ?_, ?_⟩
      · simp only [strtok, if_neg empty]
      · by_cases last : ((s.dropWhile (· ∈ delims)).dropWhile (· ∉ delims)).isEmpty
        · left
          constructor
          · simpa using last
          · simp only [out, strtokAt, s, if_neg empty, if_pos last]
        · right
          constructor
          · simpa using last
          · simp only [out, strtokAt, s, if_neg empty, if_neg last]

/-- A call finds the next token of the string and stands behind it.  A string that ends
in front of the call is left alone. -/
theorem strtokAt_spec (delims buffer : Text) (off : Nat) :
    let s := stringAt buffer off
    let out := strtokAt delims buffer off
    out.1.map (stringAt out.2.2) = (strtok delims s).1 ∧
      stringAt out.2.2 out.2.1 = (strtok delims s).2 ∧
      (∀ start, out.1 = some start → start + (stringAt out.2.2 start).length ≤ out.2.1) ∧
      off ≤ out.2.1 ∧
      ∀ k, k + (stringAt buffer k).length ≤ off → stringAt out.2.2 k = stringAt buffer k := by
  intro s out
  obtain ⟨start, rest, off_le, started, ⟨nil, none, nothing⟩ | ⟨token, tail, whole, found, last⟩⟩ :=
    strtokAt_cases delims buffer off
  · rw [none, show out = _ from nothing]
    exact ⟨rfl, started.trans nil, by simp, off_le, fun _ _ => rfl⟩
  · have token_le : token.length ≤ (stringAt buffer start).length := by
      rw [started, ← whole, List.length_append]
      exact Nat.le_add_right _ _
    rw [found]
    rcases last with ⟨nil, atEnd⟩ | ⟨more, inside⟩
    · have stopped : stringAt buffer (start + token.length) = tail := by
        rw [stringAt_add token_le, started, ← whole, List.drop_left]
      have only : stringAt buffer start = token := by
        rw [started, ← whole, nil, List.append_nil]
      rw [show out = _ from atEnd]
      refine ⟨congrArg some only, by rw [stopped, nil]; rfl, ?_,
        Nat.le_add_right_of_le off_le, fun _ _ => rfl⟩
      rintro _ ⟨⟩
      rw [only]
    · have cut : stringAt (buffer.set (start + token.length) 0) start = token := by
        rw [stringAt_set buffer (Nat.le_add_right _ _), started, Nat.add_sub_cancel_left, ← whole,
          List.take_left]
      have longer : token.length + 1 ≤ (stringAt buffer start).length := by
        have nonempty : 0 < tail.length := List.length_pos_of_ne_nil more
        rw [started, ← whole, List.length_append]
        omega
      have behind : stringAt (buffer.set (start + token.length) 0) (start + token.length + 1) =
          tail.drop 1 := by
        rw [stringAt_set_of_lt buffer (Nat.lt_add_one _), Nat.add_assoc, stringAt_add longer,
          started, ← List.drop_drop, ← whole, List.drop_left]
      rw [show out = _ from inside]
      have later : off ≤ start + token.length + 1 := by omega
      refine ⟨congrArg some cut, behind, ?_, later, ?_⟩
      · rintro _ ⟨⟩
        rw [cut]
        exact Nat.le_succ _
      · intro k ends
        rw [stringAt_set buffer (by omega), List.take_of_length_le (by omega)]

end CollabMarkdown.CString
