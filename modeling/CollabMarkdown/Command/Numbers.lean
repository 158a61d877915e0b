import CollabMarkdown.Command.Grammar
import CollabMarkdown.Markdown.Session

/-!
# Numeric arguments

`parse_size` takes whatever `strtoul` reads to its end.  That admits a sign, negating
the value modulo `2 ^ 64` if it is a minus, and digits of any length, saturating the
value.  A line means its numbers exactly if it does not get that far, or all of them are
plain digits of a value below `2 ^ 64`.
-/

namespace CollabMarkdown.Command

open CollabMarkdown.CString
open CollabMarkdown.Markdown
open CollabMarkdown.Transition

/-! ## Tokens of a valid line -/

theorem isspace_of_printable {c : Byte} (printable : 32 ≤ c) (solid : c ≠ space) :
    isspace c = false := by
  simp only [isspace, Bool.or_eq_false_iff, Bool.and_eq_false_iff, decide_eq_false_iff_not,
    beq_eq_false_iff_ne, UInt8.le_iff_toNat_le] at printable ⊢
  simp at printable ⊢
  exact ⟨solid, by omega⟩

/-- A token in a numeric place of a valid line is one of its fields, without blanks. -/
theorem solid_of_mem_numericArguments {line : Text} (valid : validateRawCommandLine line = true)
    {token : Text} (member : token ∈ numericArguments line) :
    token ≠ [] ∧ ∀ c ∈ token, isspace c = false := by
  have isField : token ∈ fields [space] (withoutTrailingNewline line) := by
    unfold numericArguments at member
    split at member
    · contradiction
    · rename_i cmd args split
      rw [split]
      exact List.mem_cons_of_mem cmd (List.mem_of_mem_take member)
  have bytes : validBytes line = true := (Bool.and_eq_true_iff.mp valid).2
  obtain ⟨validStripped, absent⟩ := validBytes_withoutTrailingNewline bytes
  refine ⟨ne_nil_of_mem_fields isField, fun c inside => ?_⟩
  obtain ⟨solid, within⟩ := mem_of_mem_fields isField inside
  have printable := (newline_or_printable validStripped within).resolve_left
    fun same => absent (same ▸ within)
  exact isspace_of_printable printable.1 (by simpa using solid)

/-! ## What `parse_size` reads -/

theorem parseSize_isSome_iff {s : Text} (nonempty : s ≠ [])
    (solid : ∀ c ∈ s, isspace c = false) : (parseSize s).isSome ↔ Integer s := by
  rw [← strtoul_rest_eq_nil_iff nonempty solid, parseSize, if_neg (by simpa using nonempty)]
  by_cases whole : (strtoul s).2 = [] <;> simp [whole]

theorem parseSize_numeral {s : Text} (numeral : Numeral s) :
    parseSize s = some (digitsValue s) := by
  rw [parseSize, if_neg (by simpa using numeral.1.1), strtoul_numeral numeral]
  rfl

theorem map_parseSize_numerals {tokens : List Text} (numerals : ∀ token ∈ tokens, Numeral token) :
    tokens.map parseSize = (tokens.map digitsValue).map some := by
  rw [List.map_map]
  exact List.map_congr_left fun token member => parseSize_numeral (numerals token member)

/-! ## Lines that mean their numbers -/

/-- The numbers of a line that makes an edit call are the ones the call gets, and a line
with anything but a number of `size_t` in a numeric place is rejected: as an invalid
command, unless its sender may not edit at all. -/
structure MeansNumbers (line : Text) : Prop where
  accepted : ∀ role edit, parseLine role line = .ok edit →
    (∀ s version, Id.run (commandExecute s version role (some line)) =
      (mapMarkdownResult (Id.run (edit.run s version)).1, (Id.run (edit.run s version)).2)) ∧
    (∀ token ∈ numericArguments line, Numeral token) ∧
    numbers edit = (numericArguments line).map digitsValue
  rejected : (∃ token ∈ numericArguments line, ¬Numeral token) → ∀ s version role,
    Id.run (commandExecute s version role (some line)) = (.rejectInvalidCommand, s) ∨
      role = .read ∧ Id.run (commandExecute s version role (some line)) = (.rejectUnauthorised, s)

/-- The numbers of an accepted line are integers of some spelling. -/
theorem integers_of_parseLine {role : UserRole} {line : Text} {edit : Edit}
    (parsed : parseLine role line = .ok edit) {token : Text}
    (member : token ∈ numericArguments line) : Integer token := by
  obtain ⟨⟨valid, -⟩, same⟩ := parseLine_numbers parsed
  obtain ⟨nonempty, solid⟩ := solid_of_mem_numericArguments valid member
  have read : parseSize token ∈ (numbers edit).map some :=
    same ▸ List.mem_map_of_mem member
  obtain ⟨n, -, value⟩ := List.mem_map.mp read
  rw [← parseSize_isSome_iff nonempty solid, ← value]
  rfl

/-- A line means its numbers exactly if it is no command whatever they are, or one of
them is no integer, or all of them are digits of a value that fits: no sign, and nothing
from `2 ^ 64` on. -/
theorem meansNumbers_iff (line : Text) :
    MeansNumbers line ↔
      (Arranged line → (∀ token ∈ numericArguments line, Integer token) →
        ∀ token ∈ numericArguments line, Numeral token) := by
  constructor
  · intro means arranged integers
    have readable (token : Text) (member : token ∈ numericArguments line) :
        (parseSize token).isSome := by
      obtain ⟨nonempty, solid⟩ := solid_of_mem_numericArguments arranged.1 member
      exact (parseSize_isSome_iff nonempty solid).mpr (integers token member)
    obtain ⟨edit, parsed⟩ := exists_parseLine arranged readable
    exact (means.accepted .write edit parsed).2.1
  · intro plain
    have numerals {role : UserRole} {edit : Edit} (parsed : parseLine role line = .ok edit) :
        ∀ token ∈ numericArguments line, Numeral token :=
      plain (parseLine_numbers parsed).1 fun _ => integers_of_parseLine parsed
    constructor
    · intro role edit parsed
      refine ⟨fun s version => by rw [run_commandExecute, parsed], numerals parsed, ?_⟩
      have same := (parseLine_numbers parsed).2
      rw [map_parseSize_numerals (numerals parsed)] at same
      exact (List.map_injective_iff.mpr (Option.some_injective Nat) same).symm
    · rintro ⟨token, member, other⟩ s version role
      rw [run_commandExecute]
      cases parsed : parseLine role line with
      | ok edit => exact absurd (numerals parsed token member) other
      | error r =>
          rcases parseLine_error parsed with rfl | ⟨reader, rfl⟩
          · exact .inl rfl
          · exact .inr ⟨reader, rfl⟩

/-- A position with a minus sign wraps around to 1, and a length too large saturates and
covers the rest of the text: both edit the document. -/
theorem negated_position_edits :
    let s := (run editStep (Store.fresh 1 ⟨[], rfl⟩)
      [.edit 0 (.insert 0 (some (ascii "ab"))), .increment]).1
    let negated := commandExecute s 1 .write (some (ascii "INSERT -18446744073709551615 x"))
    let saturated := commandExecute s 1 .write (some (ascii "DEL 0 18446744073709551616"))
    ¬MeansNumbers (ascii "INSERT -18446744073709551615 x") ∧
      ¬MeansNumbers (ascii "DEL 0 18446744073709551616") ∧
      (Id.run negated).1 = .success ∧ (Id.run negated).2.workingText = ascii "axb" ∧
      (Id.run saturated).1 = .success ∧ (Id.run saturated).2.workingText = [] := by
  refine ⟨fun means => ?_, fun means => ?_, by decide, by decide, by decide, by decide⟩
  · have plain := (means.accepted .write (.insert 1 (some (ascii "x"))) (by decide)).2.1
    exact absurd plain (by decide)
  · have plain := (means.accepted .write (.delete 0 18446744073709551615) (by decide)).2.1
    exact absurd plain (by decide)

end CollabMarkdown.Command
