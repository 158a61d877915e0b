import Mathlib.Algebra.Group.Int.Defs
import CollabMarkdown.CString.Decimal

/-!
# Signed numbers

`strtol` in base ten on a 64-bit `long`.  The number a string denotes is exact and is
stated without the scanner; `strtol` returns the nearest `long`, and a narrower
variable keeps the low bits of that.
-/

namespace CollabMarkdown.CString

/-! ## The scanner -/

/-- The exact number behind the blanks of a string and what follows its digits.  It is
absent for a string without digits. -/
def readInteger (s : Text) : Option (Int × Text) :=
  let signed := takeSign (s.dropWhile isspace)
  let digits := signed.2.takeWhile isdigit
  if digits.isEmpty then
    none
  else
    let value : Int := if signed.1 then -digitsValue digits else digitsValue digits
    some (value, signed.2.dropWhile isdigit)

/-- `strtol` in base ten: the value and the string left at `*end`.  A number above
`LONG_MAX` or below `LONG_MIN` saturates, and a string without digits is returned
whole. -/
def strtol (s : Text) : Int64 × Text :=
  match readInteger s with
  | none => (0, s)
  | some (value, rest) => (Int64.ofIntClamp value, rest)

/-! ## The number a string denotes -/

/-- The number of digits behind a sign. -/
def signedValue (sign digits : Text) : Int :=
  if sign = ascii "-" then -digitsValue digits else digitsValue digits

/-- Blanks, a sign if there is one, and digits to the end of the string. -/
def Denotes (s : Text) (n : Int) : Prop :=
  ∃ blanks sign digits, s = blanks ++ (sign ++ digits) ∧ (∀ c ∈ blanks, isspace c = true) ∧
    IsSign sign ∧ Digits digits ∧ n = signedValue sign digits

/-- A sign and digits start with no blank. -/
theorem dropWhile_isspace_sign {sign digits : Text} (isSign : IsSign sign)
    (isDigits : Digits digits) :
    (sign ++ digits).dropWhile isspace = sign ++ digits := by
  rcases isSign with rfl | rfl | rfl
  · exact dropWhile_isspace fun c member => isspace_of_isdigit (isDigits.2 c member)
  · rfl
  · rfl

/-- The scanner reads a string to its end exactly if the string denotes the number. -/
theorem readInteger_eq_iff {s : Text} {n : Int} :
    readInteger s = some (n, []) ↔ Denotes s n := by
  constructor
  · intro read
    obtain ⟨sign, split, isSign, negative⟩ := takeSign_cases (s.dropWhile isspace)
    rw [readInteger] at read
    split at read
    · contradiction
    · next some_digits =>
        obtain ⟨value, all⟩ := Prod.mk.inj (Option.some.inj read)
        have digits : Digits (takeSign (s.dropWhile isspace)).2 := by
          refine ⟨?_, List.dropWhile_eq_nil_iff.mp all⟩
          intro empty
          simp [empty] at some_digits
        refine ⟨s.takeWhile isspace, sign, (takeSign (s.dropWhile isspace)).2, ?_, ?_, isSign,
          digits, ?_⟩
        · rw [← split, List.takeWhile_append_dropWhile]
        · exact fun c member => List.mem_takeWhile_imp member
        · rw [← value, digits.takeWhile.1, negative, signedValue]
          simp only [decide_eq_true_eq]
  · rintro ⟨blanks, sign, digits, rfl, blank, isSign, isDigits, rfl⟩
    obtain ⟨all, none⟩ := isDigits.takeWhile
    have skipped : (blanks ++ (sign ++ digits)).dropWhile isspace = sign ++ digits := by
      rw [List.dropWhile_append_of_pos blank, dropWhile_isspace_sign isSign isDigits]
    simp only [readInteger, skipped, takeSign_append isSign isDigits, all, none]
    rw [if_neg (by simp [isDigits.1])]
    simp [signedValue]

theorem Denotes.unique {s : Text} {n k : Int} (first : Denotes s n) (second : Denotes s k) :
    n = k := by
  have same := (readInteger_eq_iff.mpr first).symm.trans (readInteger_eq_iff.mpr second)
  exact (Prod.mk.inj (Option.some.inj same)).1

theorem strtol_of_denotes {s : Text} {n : Int} (denotes : Denotes s n) :
    strtol s = (Int64.ofIntClamp n, []) := by
  rw [strtol, readInteger_eq_iff.mpr denotes]

/-- `strtol` reads a string to its end exactly if it is empty or denotes a number. -/
theorem strtol_rest_eq_nil_iff {s : Text} :
    (strtol s).2 = [] ↔ s = [] ∨ ∃ n, Denotes s n := by
  constructor
  · intro whole
    rw [strtol] at whole
    cases read : readInteger s with
    | none => exact .inl (by simpa [read] using whole)
    | some result =>
        obtain ⟨n, rest⟩ := result
        obtain rfl : rest = [] := by simpa [read] using whole
        exact .inr ⟨n, readInteger_eq_iff.mp read⟩
  · rintro (rfl | ⟨n, denotes⟩)
    · rfl
    · rw [strtol_of_denotes denotes]

/-- A printed number denotes itself. -/
theorem denotes_decimal (n : Nat) : Denotes (decimal n) n := by
  refine ⟨[], [], decimal n, rfl, fun c member => absurd member List.not_mem_nil, .inl rfl,
    ⟨decimal_ne_nil n, fun c => isdigit_of_mem_decimal⟩, ?_⟩
  rw [signedValue, if_neg (by decide), digitsValue_decimal]

/-! ## Narrowing -/

/-- Saturation keeps the sign. -/
theorem ofIntClamp_pos_iff {n : Int} : 0 < Int64.ofIntClamp n ↔ 0 < n := by
  rw [Int64.lt_iff_toInt_lt]
  by_cases low : Int64.minValue.toInt ≤ n
  · by_cases high : n ≤ Int64.maxValue.toInt
    · rw [Int64.toInt_ofIntClamp low high]
      rfl
    · rw [Int64.ofIntClamp, dif_pos low, dif_neg high]
      rw [Int64.toInt_maxValue] at high ⊢
      simp only [Int64.toInt_zero]
      omega
  · rw [Int64.ofIntClamp, dif_neg low]
    rw [Int64.toInt_minValue] at low ⊢
    simp only [Int64.toInt_zero]
    omega

/-- A number of the narrow type passes through both conversions. -/
theorem toInt_toInt32_ofIntClamp {n : Int} (low : -2 ^ 31 ≤ n) (high : n < 2 ^ 31) :
    (Int64.ofIntClamp n).toInt32.toInt = n := by
  rw [Int64.toInt_toInt32, Int64.toInt_ofIntClamp]
  · exact Int.bmod_eq_of_le (by omega) (by omega)
  · rw [Int64.toInt_minValue]
    omega
  · rw [Int64.toInt_maxValue]
    omega

end CollabMarkdown.CString
