import CollabMarkdown.CString.Fields

/-!
# Decimal numbers

What `%llu` and `%zu` print is read back by `strtoul`, for every number that fits
`size_t`.
-/

namespace CollabMarkdown.CString

/-- The digits of a number lie between `0` and `9`, and keep their value as bytes. -/
theorem digit_of_mem_toDigits {n : Nat} {digit : Char} (member : digit ∈ Nat.toDigits 10 n) :
    48 ≤ digit.toNat ∧ digit.toNat ≤ 57 ∧ (UInt8.ofNat digit.toNat).toNat = digit.toNat := by
  have isDigit := Nat.isDigit_of_mem_toDigits (by omega) (by omega) member
  simp only [Char.isDigit, Bool.and_eq_true, decide_eq_true_eq, UInt32.le_iff_toNat_le] at isDigit
  have low : 48 ≤ digit.toNat := isDigit.1
  have high : digit.toNat ≤ 57 := isDigit.2
  have value : (UInt8.ofNat digit.toNat).toNat = digit.toNat := by
    rw [UInt8.toNat_ofNat']
    omega
  exact ⟨low, high, value⟩

theorem isdigit_of_mem_decimal {n : Nat} {c : Byte} (member : c ∈ decimal n) :
    isdigit c = true := by
  obtain ⟨digit, inside, rfl⟩ := List.mem_map.mp member
  obtain ⟨low, high, value⟩ := digit_of_mem_toDigits inside
  simp only [isdigit, Bool.and_eq_true, decide_eq_true_eq, UInt8.le_iff_toNat_le, value]
  exact ⟨low, high⟩

theorem notMem_decimal {c : Byte} (n : Nat) (other : isdigit c = false) : c ∉ decimal n := by
  intro member
  rw [isdigit_of_mem_decimal member] at other
  contradiction

theorem decimal_ne_nil (n : Nat) : decimal n ≠ [] := by
  intro empty
  exact Nat.toDigits_ne_nil (List.map_eq_nil_iff.mp empty)

/-- The digits of a number have its value. -/
theorem digitsValue_decimal (n : Nat) : digitsValue (decimal n) = n := by
  have accumulate (digits : List Char) (start : Nat)
      (kept : ∀ digit ∈ digits, (UInt8.ofNat digit.toNat).toNat = digit.toNat) :
      (digits.map fun c => UInt8.ofNat c.toNat).foldl
          (fun value c => 10 * value + (c.toNat - 48)) start =
        Nat.ofDigitChars 10 digits start := by
    induction digits generalizing start with
    | nil => rfl
    | cons digit rest ih =>
        rw [List.map_cons, List.foldl_cons, Nat.ofDigitChars_cons, kept digit List.mem_cons_self]
        exact ih _ fun later member => kept later (List.mem_cons_of_mem _ member)
  have kept (digit : Char) (member : digit ∈ Nat.toDigits 10 n) :=
    (digit_of_mem_toDigits member).2.2
  exact (accumulate _ 0 kept).trans Nat.ofDigitChars_ten_toDigits

theorem decimal_injective : Function.Injective decimal := by
  intro n k same
  rw [← digitsValue_decimal n, same, digitsValue_decimal]

/-- A printed number that fits `size_t` is a numeral. -/
theorem numeral_decimal {n : Nat} (fits : n < sizeModulus) : Numeral (decimal n) :=
  ⟨⟨decimal_ne_nil n, fun _ => isdigit_of_mem_decimal⟩, by rwa [digitsValue_decimal]⟩

/-- A number that fits `size_t` has at most twenty digits. -/
theorem length_decimal_le {n : Nat} (fits : n < sizeModulus) : (decimal n).length ≤ 20 := by
  rw [decimal, List.length_map, Nat.length_toDigits_le_iff (by omega) (by omega)]
  exact Nat.lt_of_lt_of_le fits (by decide)

/-- Scanning a printed number gives the number back. -/
theorem strtoul_decimal {n : Nat} (fits : n < sizeModulus) : strtoul (decimal n) = (n, []) := by
  rw [strtoul_numeral (numeral_decimal fits), digitsValue_decimal]

end CollabMarkdown.CString
