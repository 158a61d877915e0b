import Mathlib.Data.List.TakeWhile
import CollabMarkdown.CString.Tokens

/-!
# Fields of a string

The fields of a string are its longest pieces without a delimiter.  `strtok` and
`strtok_r` hand them out one by one.  A number in a field is what `strtoul` reads to its
end: digits, with a sign in front if there is one.
-/

namespace CollabMarkdown.CString

/-! ## Fields and tokens -/

/-- The longest nonempty pieces of a string without a delimiter, in order. -/
def fields (delims s : Text) : List Text :=
  (s.splitOnP (· ∈ delims)).filter (· ≠ [])

variable {delims : Text}

theorem fields_nil (delims : Text) : fields delims [] = [] := by
  simp [fields]

theorem fields_delim_cons {d : Byte} (isDelim : d ∈ delims) (s : Text) :
    fields delims (d :: s) = fields delims s := by
  rw [fields, List.splitOnP_cons_eq_if_modifyHead, if_pos (by simpa using isDelim),
    List.filter_cons_of_neg (by simp), fields]

theorem fields_of_solid {s : Text} (nonempty : s ≠ []) (solid : ∀ c ∈ s, c ∉ delims) :
    fields delims s = [s] := by
  rw [fields, List.splitOnP_eq_singleton (by simpa using solid)]
  simp [nonempty]

theorem fields_append_delim {token : Text} {d : Byte} (nonempty : token ≠ [])
    (solid : ∀ c ∈ token, c ∉ delims) (isDelim : d ∈ delims) (rest : Text) :
    fields delims (token ++ d :: rest) = token :: fields delims rest := by
  rw [fields, List.splitOnP_append_cons_of_forall_mem (by simpa using solid) d
    (by simpa using isDelim), List.filter_cons_of_pos (by simpa using nonempty), fields]

theorem fields_dropWhile (delims s : Text) :
    fields delims (s.dropWhile (· ∈ delims)) = fields delims s := by
  induction s with
  | nil => rfl
  | cons c rest ih =>
      by_cases skip : c ∈ delims
      · rw [List.dropWhile_cons_of_pos (by simpa using skip), ih, fields_delim_cons skip]
      · rw [List.dropWhile_cons_of_neg (by simpa using skip)]

/-- A string up to its first delimiter, and from there on. -/
theorem takeWhile_delim_cases (delims s : Text) :
    ∃ token tail, s = token ++ tail ∧ (∀ c ∈ token, c ∉ delims) ∧
      (tail = [] ∨ ∃ d rest, d ∈ delims ∧ tail = d :: rest) ∧
      s.takeWhile (· ∉ delims) = token ∧ s.dropWhile (· ∉ delims) = tail := by
  refine ⟨s.takeWhile (· ∉ delims), s.dropWhile (· ∉ delims),
    List.takeWhile_append_dropWhile.symm, ?_, ?_, rfl, rfl⟩
  · intro c member
    simpa using List.mem_takeWhile_imp member
  · cases tail_eq : s.dropWhile (· ∉ delims) with
    | nil => exact .inl rfl
    | cons c rest =>
        have more : s.dropWhile (· ∉ delims) ≠ [] := tail_eq ▸ List.cons_ne_nil c rest
        have stop := List.head_dropWhile_not (· ∉ delims) more
        simp only [tail_eq, List.head_cons] at stop
        exact .inr ⟨c, rest, by simpa using stop, rfl⟩

/-- A call of `strtok` hands out the first field and leaves the others. -/
theorem strtok_fields (delims s : Text) :
    (strtok delims s).1 = (fields delims s).head? ∧
      fields delims (strtok delims s).2 = (fields delims s).tail := by
  rw [← fields_dropWhile delims s]
  simp only [strtok]
  cases trimmed : s.dropWhile (· ∈ delims) with
  | nil => simp [fields_nil]
  | cons c rest =>
      have more : s.dropWhile (· ∈ delims) ≠ [] := by simp [trimmed]
      have starts := List.head_dropWhile_not (· ∈ delims) more
      simp only [trimmed, List.head_cons, decide_eq_false_iff_not] at starts
      obtain ⟨token, tail, whole, solid, stops, take_eq, drop_eq⟩ :=
        takeWhile_delim_cases delims (c :: rest)
      have nonempty : token ≠ [] := by
        rintro rfl
        rcases stops with rfl | ⟨d, _, isDelim, rfl⟩
        · contradiction
        · exact starts ((List.cons.inj whole).1 ▸ isDelim)
      rw [take_eq, drop_eq, whole, if_neg (by simp [nonempty])]
      rcases stops with rfl | ⟨d, behind, isDelim, rfl⟩
      · rw [List.append_nil, fields_of_solid nonempty solid]
        exact ⟨rfl, fields_nil delims⟩
      · rw [fields_append_delim nonempty solid isDelim]
        exact ⟨rfl, rfl⟩

/-- `strtok_r` is `strtok` with a pointer of its own. -/
theorem strtokR_eq_strtok (delim : Byte) (s : Text) : strtokR delim s = strtok [delim] s := by
  have isDelim : (fun c : Byte => decide (c ∈ [delim])) = (· == delim) := by
    funext c
    simp [beq_eq_decide]
  have other : (fun c : Byte => decide (c ∉ [delim])) = (· != delim) := by
    funext c
    simp [bne, beq_eq_decide]
  rw [strtokR, strtok, isDelim, other]

theorem strtokR_fields (delim : Byte) (s : Text) :
    (strtokR delim s).1 = (fields [delim] s).head? ∧
      fields [delim] (strtokR delim s).2 = (fields [delim] s).tail := by
  rw [strtokR_eq_strtok]
  exact strtok_fields [delim] s

theorem strtokR_rest_of_none {delim : Byte} {s : Text} (none_left : (strtokR delim s).1 = none) :
    (strtokR delim s).2 = [] := by
  simp only [strtokR] at none_left ⊢
  by_cases blank : (s.dropWhile (· == delim)).isEmpty = true
  · rw [if_pos blank]
  · rw [if_neg blank] at none_left
    contradiction

/-- The saved string is part of the string. -/
theorem strtokR_subset (delim : Byte) (s : Text) : (strtokR delim s).2 ⊆ s := by
  simp only [strtokR]
  split
  · exact List.nil_subset s
  · intro c member
    exact (List.dropWhile_suffix _).subset
      ((List.dropWhile_suffix _).subset (List.mem_of_mem_drop member))

/-- A first token is the first field, in front of those of the saved string. -/
theorem fields_of_strtokR {delim : Byte} {s token save : Text}
    (first : strtokR delim s = (some token, save)) :
    fields [delim] s = token :: fields [delim] save := by
  obtain ⟨head, tail⟩ := strtokR_fields delim s
  rw [first] at head tail
  rw [tail]
  exact List.eq_cons_of_mem_head? head.symm

/-- Joined by single delimiters, the fields are the strings that were joined. -/
theorem fields_intercalate {delim : Byte} {pieces : List Text}
    (solid : ∀ piece ∈ pieces, piece ≠ [] ∧ delim ∉ piece) :
    fields [delim] ([delim].intercalate pieces) = pieces := by
  induction pieces with
  | nil => exact fields_nil [delim]
  | cons first rest ih =>
      obtain ⟨nonempty, absent⟩ := solid first List.mem_cons_self
      have others : ∀ c ∈ first, c ∉ [delim] := by
        intro c member isDelim
        exact absent (List.mem_singleton.mp isDelim ▸ member)
      cases rest with
      | nil => rw [List.intercalate_singleton, fields_of_solid nonempty others]
      | cons next rest =>
          rw [List.intercalate_cons_cons, List.append_assoc, List.singleton_append,
            fields_append_delim nonempty others List.mem_cons_self,
            ih fun piece member => solid piece (List.mem_cons_of_mem first member)]

theorem mem_of_mem_intercalate {delim : Byte} {pieces : List Text} {c : Byte}
    (member : c ∈ [delim].intercalate pieces) : c = delim ∨ ∃ piece ∈ pieces, c ∈ piece := by
  induction pieces with
  | nil => contradiction
  | cons first rest ih =>
      cases rest with
      | nil =>
          rw [List.intercalate_singleton] at member
          exact .inr ⟨first, List.mem_cons_self, member⟩
      | cons next rest =>
          rw [List.intercalate_cons_cons] at member
          rcases List.mem_append.mp member with front | behind
          · rcases List.mem_append.mp front with inside | between
            · exact .inr ⟨first, List.mem_cons_self, inside⟩
            · exact .inl (List.mem_singleton.mp between)
          · rcases ih behind with between | ⟨piece, later, inside⟩
            · exact .inl between
            · exact .inr ⟨piece, List.mem_cons_of_mem first later, inside⟩

/-- A token that a delimiter ends is handed out, and the saved string starts right
behind the delimiter. -/
theorem strtokR_append_delim {delim : Byte} {token : Text} (nonempty : token ≠ [])
    (absent : delim ∉ token) (rest : Text) :
    strtokR delim (token ++ delim :: rest) = (some token, rest) := by
  obtain ⟨c, behind, rfl⟩ := List.exists_cons_of_ne_nil nonempty
  have starts : c ≠ delim := fun same => absent (same ▸ List.mem_cons_self)
  have others : ∀ d ∈ c :: behind, (d != delim) = true := by
    intro d member
    have other : d ≠ delim := fun same => absent (same ▸ member)
    simpa using other
  have kept :
      (c :: behind ++ delim :: rest).dropWhile (· == delim) = c :: behind ++ delim :: rest :=
    List.dropWhile_cons_of_neg (by simpa using starts)
  simp only [strtokR, kept]
  rw [List.takeWhile_append_of_pos others, List.dropWhile_append_of_pos others]
  simp

/-- The pieces of a split string are made of its bytes other than the delimiters. -/
theorem mem_of_mem_splitOnP {s piece : Text} (member : piece ∈ s.splitOnP (· ∈ delims))
    {c : Byte} (inside : c ∈ piece) : c ∉ delims ∧ c ∈ s := by
  induction s generalizing piece with
  | nil =>
      obtain rfl : piece = [] := by simpa using member
      contradiction
  | cons d rest ih =>
      rw [List.splitOnP_cons_eq_if_modifyHead] at member
      by_cases cut : d ∈ delims
      · rw [if_pos (by simpa using cut)] at member
        rcases List.mem_cons.mp member with rfl | later
        · contradiction
        · exact ⟨(ih later inside).1, List.mem_cons_of_mem d (ih later inside).2⟩
      · rw [if_neg (by simpa using cut)] at member
        obtain ⟨head, more, split⟩ :=
          List.exists_cons_of_ne_nil (List.splitOnP_ne_nil (· ∈ delims) rest)
        rw [split] at member ih
        rcases List.mem_cons.mp member with rfl | later
        · rcases List.mem_cons.mp inside with rfl | inside
          · exact ⟨cut, List.mem_cons_self⟩
          · obtain ⟨other, within⟩ := ih List.mem_cons_self inside
            exact ⟨other, List.mem_cons_of_mem d within⟩
        · obtain ⟨other, within⟩ := ih (List.mem_cons_of_mem head later) inside
          exact ⟨other, List.mem_cons_of_mem d within⟩

theorem ne_nil_of_mem_fields {s token : Text} (member : token ∈ fields delims s) :
    token ≠ [] := by
  simpa using List.of_mem_filter member

theorem mem_of_mem_fields {s token : Text} (member : token ∈ fields delims s)
    {c : Byte} (inside : c ∈ token) : c ∉ delims ∧ c ∈ s :=
  mem_of_mem_splitOnP (List.mem_of_mem_filter member) inside

/-! ## Numbers in fields -/

/-- A nonempty string of digits. -/
def Digits (s : Text) : Prop :=
  s ≠ [] ∧ ∀ c ∈ s, isdigit c = true

/-- Digits that denote a number of `size_t`. -/
def Numeral (s : Text) : Prop :=
  Digits s ∧ digitsValue s < sizeModulus

/-- The sign in front of a number, which may be left out. -/
def IsSign (sign : Text) : Prop :=
  sign = [] ∨ sign = ascii "+" ∨ sign = ascii "-"

/-- Digits, with a sign in front if there is one. -/
def Integer (s : Text) : Prop :=
  ∃ sign digits, s = sign ++ digits ∧ IsSign sign ∧ Digits digits

instance (s : Text) : Decidable (Digits s) :=
  decidable_of_iff (s ≠ [] ∧ s.all isdigit = true) (and_congr_right' List.all_eq_true)

instance (s : Text) : Decidable (Numeral s) :=
  inferInstanceAs (Decidable (_ ∧ _))

theorem Digits.takeSign {s : Text} (digits : Digits s) : takeSign s = (false, s) := by
  obtain ⟨c, rest, rfl⟩ := List.exists_cons_of_ne_nil digits.1
  have first := digits.2 c List.mem_cons_self
  have minus : c ≠ 45 := by
    rintro rfl
    exact absurd first (by decide)
  have plus : c ≠ 43 := by
    rintro rfl
    exact absurd first (by decide)
  simp only [CString.takeSign, if_neg minus, if_neg plus]

theorem Digits.takeWhile {s : Text} (digits : Digits s) :
    s.takeWhile isdigit = s ∧ s.dropWhile isdigit = [] :=
  ⟨List.takeWhile_eq_self_iff.mpr digits.2, List.dropWhile_eq_nil_iff.mpr digits.2⟩

/-- The sign of a string and what follows it. -/
theorem takeSign_cases (s : Text) :
    ∃ sign, s = sign ++ (takeSign s).2 ∧ IsSign sign ∧
      (takeSign s).1 = decide (sign = ascii "-") := by
  cases s with
  | nil => exact ⟨[], rfl, .inl rfl, rfl⟩
  | cons c rest =>
      by_cases minus : c = 45
      · subst minus
        exact ⟨ascii "-", rfl, .inr (.inr rfl), rfl⟩
      · by_cases plus : c = 43
        · subst plus
          exact ⟨ascii "+", rfl, .inr (.inl rfl), rfl⟩
        · refine ⟨[], ?_, .inl rfl, ?_⟩
          · rw [CString.takeSign, if_neg minus, if_neg plus, List.nil_append]
          · rw [CString.takeSign, if_neg minus, if_neg plus]
            rfl

theorem takeSign_append {sign digits : Text} (isSign : IsSign sign) (isDigits : Digits digits) :
    takeSign (sign ++ digits) = (decide (sign = ascii "-"), digits) := by
  rcases isSign with rfl | rfl | rfl
  · rw [List.nil_append, isDigits.takeSign]
    rfl
  · rfl
  · rfl

theorem dropWhile_isspace {s : Text} (solid : ∀ c ∈ s, isspace c = false) :
    s.dropWhile isspace = s := by
  cases s with
  | nil => rfl
  | cons c rest => rw [List.dropWhile_cons_of_neg (by simp [solid c List.mem_cons_self])]

/-- `strtoul` reads a string without blanks to its end exactly if it is an integer. -/
theorem strtoul_rest_eq_nil_iff {s : Text} (nonempty : s ≠ [])
    (solid : ∀ c ∈ s, isspace c = false) : (strtoul s).2 = [] ↔ Integer s := by
  unfold strtoul
  rw [dropWhile_isspace solid]
  constructor
  · intro whole
    obtain ⟨sign, split, isSign, _⟩ := takeSign_cases s
    refine ⟨sign, (takeSign s).2, split, isSign, ?_⟩
    by_cases none : ((takeSign s).2.takeWhile isdigit).isEmpty = true
    · rw [if_pos none] at whole
      exact absurd whole nonempty
    · rw [if_neg none] at whole
      refine ⟨?_, List.dropWhile_eq_nil_iff.mp whole⟩
      intro empty
      simp [empty] at none
  · rintro ⟨sign, digits, rfl, isSign, isDigits⟩
    obtain ⟨all, none⟩ := isDigits.takeWhile
    simp only [takeSign_append isSign isDigits, all, none]
    rw [if_neg (by simp [isDigits.1])]

theorem isspace_of_isdigit {c : Byte} (digit : isdigit c = true) : isspace c = false := by
  simp only [isdigit, Bool.and_eq_true, decide_eq_true_eq, UInt8.le_iff_toNat_le] at digit
  simp only [isspace, space, Bool.or_eq_false_iff, beq_eq_false_iff_ne, ne_eq,
    Bool.and_eq_false_iff, decide_eq_false_iff_not, UInt8.le_iff_toNat_le, ← UInt8.toNat_inj]
  simp at digit ⊢
  omega

/-- Of a numeral it reads the value. -/
theorem strtoul_numeral {s : Text} (numeral : Numeral s) : strtoul s = (digitsValue s, []) := by
  obtain ⟨digits, fits⟩ := numeral
  obtain ⟨all, none⟩ := digits.takeWhile
  have solid : s.dropWhile isspace = s :=
    dropWhile_isspace fun c member => isspace_of_isdigit (digits.2 c member)
  simp only [strtoul, solid, digits.takeSign, all, none]
  rw [if_neg (by simp [digits.1]), if_neg (Nat.not_le.mpr fits)]
  rfl

end CollabMarkdown.CString
