import CollabMarkdown.CString.Decimal
import CollabMarkdown.Command.Numbers

/-!
# Rendering command lines

An edit call is written as the name of its command and its arguments, with single spaces
between them.  `command_execute` reads such a line back as the same call.
-/

namespace CollabMarkdown.Command

open CollabMarkdown.CString
open CollabMarkdown.Markdown

/-! ## Lines -/

/-- The name of the command that makes an edit. -/
def commandName : Edit → Text
  | .insert _ _ => ascii "INSERT"
  | .delete _ _ => ascii "DEL"
  | .newline _ => ascii "NEWLINE"
  | .heading _ _ => ascii "HEADING"
  | .bold _ _ => ascii "BOLD"
  | .italic _ _ => ascii "ITALIC"
  | .blockquote _ => ascii "BLOCKQUOTE"
  | .orderedList _ => ascii "ORDERED_LIST"
  | .unorderedList _ => ascii "UNORDERED_LIST"
  | .code _ _ => ascii "CODE"
  | .horizontalRule _ => ascii "HORIZONTAL_RULE"
  | .link _ _ _ => ascii "LINK"

/-- The content or URL of a call is there, and a line can hold it. -/
def Carriable : Edit → Prop
  | .insert _ content => ∃ text, content = some text ∧ text ≠ [] ∧ ∀ c ∈ text, 32 ≤ c ∧ c ≤ 126
  | .link _ _ url => ∃ text, url = some text ∧ text ≠ [] ∧ ∀ c ∈ text, 33 ≤ c ∧ c ≤ 126
  | _ => True

/-- The arguments of a call behind the name of its command, with its numbers spelled as
given. -/
def commandLine (edit : Edit) (spelled : List Text) : Text :=
  commandName edit ++ space :: [space].intercalate (spelled ++ payload edit)

/-- A line renders a call if its numbers are spelled in decimal; a newline may end it. -/
def Renders (line : Text) (edit : Edit) : Prop :=
  ∃ spelled, (∀ token ∈ spelled, Digits token) ∧ spelled.map digitsValue = numbers edit ∧
    (line = commandLine edit spelled ∨ line = commandLine edit spelled ++ [newline])

/-! ## Bytes of a rendering -/

theorem validBytes_of_printable {s : Text} (printable : ∀ c ∈ s, 32 ≤ c ∧ c ≤ 126) :
    validBytes s = true ∧ validBytes (s ++ [newline]) = true ∧ newline ∉ s := by
  have absent : newline ∉ s := fun member => absurd (printable newline member).1 (by decide)
  refine ⟨?_, ?_, absent⟩
  all_goals
    induction s with
    | nil => rfl
    | cons c rest ih =>
        have other : c ≠ newline := fun same => absent (same ▸ List.mem_cons_self)
        have later := ih (fun d member => printable d (List.mem_cons_of_mem c member))
          fun member => absent (List.mem_cons_of_mem c member)
        simpa [validBytes, other] using ⟨printable c List.mem_cons_self, later⟩

theorem solid_writeCommands :
    ∀ name ∈ writeCommands, name ≠ [] ∧ ∀ c ∈ name, 33 ≤ c ∧ c ≤ 126 := by
  have all : writeCommands.all (fun name => !name.isEmpty &&
      name.all fun c => 33 ≤ c && c ≤ 126) = true := by decide
  simpa using all

theorem solid_commandName (edit : Edit) :
    commandName edit ≠ [] ∧ ∀ c ∈ commandName edit, 33 ≤ c ∧ c ≤ 126 := by
  apply solid_writeCommands
  cases edit <;> simp [commandName, writeCommands]

theorem solid_digits {token : Text} (digits : Digits token) :
    ∀ c ∈ token, 33 ≤ c ∧ c ≤ 126 := by
  intro c member
  have digit := digits.2 c member
  simp only [isdigit, Bool.and_eq_true, decide_eq_true_eq, UInt8.le_iff_toNat_le] at digit ⊢
  simp at digit ⊢
  omega

/-- Bytes above the space hold no space, and are printable. -/
theorem space_notMem {s : Text} (solid : ∀ c ∈ s, 33 ≤ c ∧ c ≤ 126) : space ∉ s :=
  fun member => absurd (solid space member).1 (by decide)

theorem printable_of_solid {c : Byte} (solid : 33 ≤ c ∧ c ≤ 126) : 32 ≤ c ∧ c ≤ 126 :=
  ⟨UInt8.le_trans (by decide) solid.1, solid.2⟩

theorem printable_payload {edit : Edit} (carriable : Carriable edit) :
    ∀ text ∈ payload edit, ∀ c ∈ text, 32 ≤ c ∧ c ≤ 126 := by
  intro text member
  cases edit with
  | insert pos content =>
      obtain ⟨content, rfl, -, printable⟩ := carriable
      obtain rfl : text = content := by simpa [payload] using member
      exact printable
  | link start stop url =>
      obtain ⟨url, rfl, -, solid⟩ := carriable
      obtain rfl : text = url := by simpa [payload] using member
      exact fun c inside => printable_of_solid (solid c inside)
  | _ => contradiction

theorem printable_commandLine {edit : Edit} {spelled : List Text} (carriable : Carriable edit)
    (digits : ∀ token ∈ spelled, Digits token) :
    ∀ c ∈ commandLine edit spelled, 32 ≤ c ∧ c ≤ 126 := by
  intro c member
  rcases List.mem_append.mp member with inName | behind
  · exact printable_of_solid ((solid_commandName edit).2 c inName)
  rcases List.mem_cons.mp behind with rfl | inArguments
  · decide
  rcases mem_of_mem_intercalate inArguments with rfl | ⟨piece, isPiece, inside⟩
  · decide
  rcases List.mem_append.mp isPiece with number | rest
  · exact printable_of_solid (solid_digits (digits piece number) c inside)
  · exact printable_payload carriable piece rest c inside

/-- A rendering that is short enough is a valid line, and without its newline it is the
command and its arguments. -/
theorem validate_rendering {line : Text} {edit : Edit} (renders : Renders line edit)
    (carriable : Carriable edit) (short : line.length ≤ maxCommandLen) :
    validateRawCommandLine line = true ∧
      ∃ spelled, (∀ token ∈ spelled, Digits token) ∧ spelled.map digitsValue = numbers edit ∧
        withoutTrailingNewline line = commandLine edit spelled := by
  obtain ⟨spelled, digits, values, shape⟩ := renders
  obtain ⟨valid, validEnded, absent⟩ :=
    validBytes_of_printable (printable_commandLine carriable digits)
  rcases shape with rfl | rfl
  · refine ⟨?_, spelled, digits, values, withoutTrailingNewline_of_notMem absent⟩
    have nonempty : commandLine edit spelled ≠ [] := by simp [commandLine]
    simpa [validateRawCommandLine, nonempty, valid] using short
  · refine ⟨?_, spelled, digits, values, ?_⟩
    · simpa [validateRawCommandLine, validEnded] using short
    · simp [withoutTrailingNewline]

/-! ## Reading a rendering -/

theorem fields_arguments {pieces : List Text}
    (solid : ∀ piece ∈ pieces, piece ≠ [] ∧ ∀ c ∈ piece, 33 ≤ c ∧ c ≤ 126) :
    fields [space] ([space].intercalate pieces) = pieces :=
  fields_intercalate fun piece member =>
    ⟨(solid piece member).1, space_notMem (solid piece member).2⟩

theorem parseSize_digits {token : Text} {n : Nat} (digits : Digits token)
    (value : digitsValue token = n) (sized : n < sizeModulus) : parseSize token = some n := by
  subst value
  exact parseSize_numeral ⟨digits, sized⟩

theorem parsePosition_spelled {call : Nat → Edit} {spelled : List Text} {n : Nat}
    (digits : ∀ token ∈ spelled, Digits token) (values : spelled.map digitsValue = [n])
    (sized : n < sizeModulus) :
    parsePosition call ([space].intercalate (spelled ++ [])) = some (call n) := by
  obtain ⟨a, rfl, value⟩ := List.map_eq_singleton_iff.mp values
  have isDigits : Digits a := digits a List.mem_cons_self
  refine parsePosition_eq_some_iff.mpr ⟨a, n, fields_arguments ?_,
    parseSize_digits isDigits value sized, rfl⟩
  simpa using ⟨isDigits.1, solid_digits isDigits⟩

/-- Two numbers in front of a payload. -/
theorem pair_spelled {spelled : List Text} {n k : Nat}
    (digits : ∀ token ∈ spelled, Digits token) (values : spelled.map digitsValue = [n, k])
    (sized : n < sizeModulus ∧ k < sizeModulus) :
    ∃ a b, spelled = [a, b] ∧ (a ≠ [] ∧ ∀ c ∈ a, 33 ≤ c ∧ c ≤ 126) ∧
      (b ≠ [] ∧ ∀ c ∈ b, 33 ≤ c ∧ c ≤ 126) ∧
      parseSize a = some n ∧ parseSize b = some k := by
  obtain ⟨a, rest, rfl, first, others⟩ := List.map_eq_cons_iff.mp values
  obtain ⟨b, rfl, second⟩ := List.map_eq_singleton_iff.mp others
  have firstDigits : Digits a := digits a List.mem_cons_self
  have secondDigits : Digits b := digits b (List.mem_cons_of_mem a List.mem_cons_self)
  exact ⟨a, b, rfl, ⟨firstDigits.1, solid_digits firstDigits⟩,
    ⟨secondDigits.1, solid_digits secondDigits⟩, parseSize_digits firstDigits first sized.1,
    parseSize_digits secondDigits second sized.2⟩

theorem parsePair_spelled {call : Nat → Nat → Edit} {spelled : List Text} {n k : Nat}
    (digits : ∀ token ∈ spelled, Digits token) (values : spelled.map digitsValue = [n, k])
    (sized : n < sizeModulus ∧ k < sizeModulus) :
    parsePair call ([space].intercalate (spelled ++ [])) = some (call n k) := by
  obtain ⟨a, b, rfl, solidA, solidB, first, second⟩ := pair_spelled digits values sized
  refine parsePair_eq_some_iff.mpr ⟨a, b, n, k, fields_arguments ?_, first, second, rfl⟩
  simpa using ⟨solidA, solidB⟩

theorem parseLink_spelled {spelled : List Text} {url : Text} {n k : Nat}
    (digits : ∀ token ∈ spelled, Digits token) (values : spelled.map digitsValue = [n, k])
    (sized : n < sizeModulus ∧ k < sizeModulus)
    (solid : url ≠ [] ∧ ∀ c ∈ url, 33 ≤ c ∧ c ≤ 126) :
    parseLink ([space].intercalate (spelled ++ [url])) = some (.link n k (some url)) := by
  obtain ⟨a, b, rfl, solidA, solidB, first, second⟩ := pair_spelled digits values sized
  refine parseLink_eq_some_iff.mpr ⟨a, b, url, n, k, fields_arguments ?_, first, second, rfl⟩
  simpa using ⟨solidA, solidB, solid⟩

/-- The content starts right behind the space after the position, whatever it starts
with. -/
theorem parseInsert_spelled {spelled : List Text} {content : Text} {n : Nat}
    (digits : ∀ token ∈ spelled, Digits token) (values : spelled.map digitsValue = [n])
    (sized : n < sizeModulus) (nonempty : content ≠ []) :
    parseInsert ([space].intercalate (spelled ++ [content])) =
      some (.insert n (some content)) := by
  obtain ⟨a, rfl, value⟩ := List.map_eq_singleton_iff.mp values
  have isDigits : Digits a := digits a List.mem_cons_self
  have first := strtokR_append_delim isDigits.1 (space_notMem (solid_digits isDigits)) content
  have line : [space].intercalate ([a] ++ [content]) = a ++ space :: content := by
    simp [List.intercalate_cons_cons]
  rw [line]
  simp [parseInsert, first, nonempty, parseSize_digits isDigits value sized]

/-- Behind its name, the arguments of a call are parsed as the call. -/
theorem parseEdit_spelled {edit : Edit} {spelled : List Text} (carriable : Carriable edit)
    (digits : ∀ token ∈ spelled, Digits token) (values : spelled.map digitsValue = numbers edit)
    (sized : ∀ n ∈ numbers edit, n < sizeModulus) :
    parseEdit (commandName edit) ([space].intercalate (spelled ++ payload edit)) = some edit := by
  cases edit with
  | insert pos content =>
      obtain ⟨content, rfl, nonempty, -⟩ := carriable
      exact parseInsert_spelled digits values (by simpa [numbers] using sized) nonempty
  | link start stop url =>
      obtain ⟨url, rfl, solid⟩ := carriable
      exact parseLink_spelled digits values (by simpa [numbers] using sized) solid
  | delete pos len => exact parsePair_spelled digits values (by simpa [numbers] using sized)
  | newline pos => exact parsePosition_spelled digits values (by simpa [numbers] using sized)
  | heading level pos => exact parsePair_spelled digits values (by simpa [numbers] using sized)
  | bold start stop => exact parsePair_spelled digits values (by simpa [numbers] using sized)
  | italic start stop => exact parsePair_spelled digits values (by simpa [numbers] using sized)
  | blockquote pos => exact parsePosition_spelled digits values (by simpa [numbers] using sized)
  | orderedList pos => exact parsePosition_spelled digits values (by simpa [numbers] using sized)
  | unorderedList pos => exact parsePosition_spelled digits values (by simpa [numbers] using sized)
  | code start stop => exact parsePair_spelled digits values (by simpa [numbers] using sized)
  | horizontalRule pos => exact parsePosition_spelled digits values (by simpa [numbers] using sized)

theorem parseLine_rendering {line : Text} {edit : Edit} (renders : Renders line edit)
    (carriable : Carriable edit) (sized : ∀ n ∈ numbers edit, n < sizeModulus)
    (short : line.length ≤ maxCommandLen) : parseLine .write line = .ok edit := by
  obtain ⟨valid, spelled, digits, values, stripped⟩ := validate_rendering renders carriable short
  obtain ⟨nonempty, solid⟩ := solid_commandName edit
  have first := strtokR_append_delim nonempty (space_notMem solid)
    ([space].intercalate (spelled ++ payload edit))
  have called := parseEdit_spelled carriable digits values sized
  rw [← commandLine, ← stripped] at first
  exact parseLine_eq_ok_iff.mpr ⟨valid, _, _, first, by simp, called⟩

/-- Executing a rendering of an edit call is making the call, for every document and
version: the document is left as the call leaves it, and the result is its result. -/
theorem commandExecute_rendering {line : Text} {edit : Edit} (renders : Renders line edit)
    (carriable : Carriable edit) (sized : ∀ n ∈ numbers edit, n < sizeModulus)
    (short : line.length ≤ maxCommandLen) (s : Store) (version : UInt64) :
    Id.run (commandExecute s version .write (some line)) =
      (mapMarkdownResult (Id.run (edit.run s version)).1, (Id.run (edit.run s version)).2) := by
  rw [run_commandExecute, parseLine_rendering renders carriable sized short]

/-- Content of spaces alone, and a newline at the end. -/
theorem commandExecute_rendering_spaces :
    Id.run (commandExecute (Store.fresh 1 ⟨[], rfl⟩) 0 .write (some (ascii "INSERT 0    \n"))) =
      (.success, (Id.run ((Edit.insert 0 (some (ascii "   "))).run
        (Store.fresh 1 ⟨[], rfl⟩) 0)).2) :=
  have blanks : (ascii "   ").all (fun c => 32 ≤ c && c ≤ 126) = true := by decide
  @commandExecute_rendering (ascii "INSERT 0    \n") (.insert 0 (some (ascii "   ")))
    ⟨[ascii "0"], by decide, by decide, .inr (by decide)⟩
    ⟨ascii "   ", rfl, by decide, by simpa using blanks⟩ (by decide) (by decide) _ _

end CollabMarkdown.Command
