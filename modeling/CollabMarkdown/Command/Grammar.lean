import CollabMarkdown.CString.Fields
import CollabMarkdown.Command.Execute

/-!
# The grammar of command lines

A line is accepted if its fields are a command name and the arguments that command
takes, each numeric one readable as a number.  `INSERT` is the exception: what stands
behind its position is content, taken as it is.
-/

namespace CollabMarkdown.Command

open CollabMarkdown.CString
open CollabMarkdown.Markdown

/-! ## Arguments -/

/-- The numbers an edit call receives, in the order of the command line. -/
def numbers : Edit → List Nat
  | .insert pos _ => [pos]
  | .delete pos len => [pos, len]
  | .newline pos => [pos]
  | .heading level pos => [level, pos]
  | .bold start stop => [start, stop]
  | .italic start stop => [start, stop]
  | .blockquote pos => [pos]
  | .orderedList pos => [pos]
  | .unorderedList pos => [pos]
  | .code start stop => [start, stop]
  | .horizontalRule pos => [pos]
  | .link start stop _ => [start, stop]

/-- The argument behind the numbers: the content of an insertion, the URL of a link. -/
def payload : Edit → List Text
  | .insert _ content => content.toList
  | .link _ _ url => url.toList
  | _ => []

/-- How many numeric arguments a command takes, in the places right behind its name. -/
def numericPlaces (cmd : Text) : Nat :=
  if [ascii "INSERT", ascii "NEWLINE", ascii "BLOCKQUOTE", ascii "ORDERED_LIST",
      ascii "UNORDERED_LIST", ascii "HORIZONTAL_RULE"].contains cmd then 1
  else if [ascii "DEL", ascii "HEADING", ascii "BOLD", ascii "ITALIC", ascii "CODE",
      ascii "LINK"].contains cmd then 2
  else 0

theorem numericPlaces_insert : numericPlaces (ascii "INSERT") = 1 :=
  rfl

theorem numericPlaces_link : numericPlaces (ascii "LINK") = 2 :=
  rfl

/-- The tokens in the numeric places of a line. -/
def numericArguments (line : Text) : List Text :=
  match fields [space] (withoutTrailingNewline line) with
  | [] => []
  | cmd :: args => args.take (numericPlaces cmd)

/-- What `INSERT` takes as content: the text behind the token of its position. -/
def insertContent (line : Text) : Text :=
  (strtokR space (strtokR space (withoutTrailingNewline line)).2).2

/-- A command has the arguments it takes: `INSERT` some content, `LINK` two positions
and a URL, every other command its numbers and nothing else. -/
def ArgumentsFit (cmd : Text) (args : List Text) (content : Text) : Prop :=
  if cmd = ascii "INSERT" then content ≠ []
  else if cmd = ascii "LINK" then args.length = 3
  else 0 < numericPlaces cmd ∧ args.length = numericPlaces cmd

/-- Apart from the spelling of its numbers the line is a command: valid bytes, a known
name, and the arguments that command takes. -/
def Arranged (line : Text) : Prop :=
  validateRawCommandLine line = true ∧
    ∃ cmd args, fields [space] (withoutTrailingNewline line) = cmd :: args ∧
      ArgumentsFit cmd args (insertContent line)

/-! ## The parsers of arguments -/

theorem parsePosition_eq_some_iff {edit : Nat → Edit} {save : Text} {e : Edit} :
    parsePosition edit save = some e ↔
      ∃ a n, fields [space] save = [a] ∧ parseSize a = some n ∧ edit n = e := by
  obtain ⟨first, rest⟩ := strtokR_fields space save
  obtain ⟨second, -⟩ := strtokR_fields space (strtokR space save).2
  rw [rest] at second
  simp only [parsePosition, first, second]
  rcases fields [space] save with _ | ⟨a, _ | ⟨b, more⟩⟩ <;> simp

theorem parsePair_eq_some_iff {edit : Nat → Nat → Edit} {save : Text} {e : Edit} :
    parsePair edit save = some e ↔
      ∃ a b n k, fields [space] save = [a, b] ∧ parseSize a = some n ∧ parseSize b = some k ∧
        edit n k = e := by
  obtain ⟨first, rest⟩ := strtokR_fields space save
  obtain ⟨second, rest'⟩ := strtokR_fields space (strtokR space save).2
  obtain ⟨third, -⟩ := strtokR_fields space (strtokR space (strtokR space save).2).2
  rw [rest', rest] at third
  rw [rest] at second
  simp only [parsePair, first, second, third]
  rcases fields [space] save with _ | ⟨a, _ | ⟨b, _ | ⟨c, more⟩⟩⟩ <;>
    simp [Option.bind_eq_some_iff]

theorem parseLink_eq_some_iff {save : Text} {e : Edit} :
    parseLink save = some e ↔
      ∃ a b url n k, fields [space] save = [a, b, url] ∧ parseSize a = some n ∧
        parseSize b = some k ∧ .link n k (some url) = e := by
  obtain ⟨first, rest⟩ := strtokR_fields space save
  obtain ⟨second, rest'⟩ := strtokR_fields space (strtokR space save).2
  obtain ⟨third, rest''⟩ := strtokR_fields space (strtokR space (strtokR space save).2).2
  obtain ⟨fourth, -⟩ :=
    strtokR_fields space (strtokR space (strtokR space (strtokR space save).2).2).2
  rw [rest'', rest', rest] at fourth
  rw [rest', rest] at third
  rw [rest] at second
  simp only [parseLink, first, second, third, fourth]
  rcases fields [space] save with _ | ⟨a, _ | ⟨b, _ | ⟨c, _ | ⟨d, more⟩⟩⟩⟩ <;>
    simp [Option.bind_eq_some_iff]

theorem parseInsert_eq_some_iff {save : Text} {e : Edit} :
    parseInsert save = some e ↔
      ∃ a n, (fields [space] save).head? = some a ∧ (strtokR space save).2 ≠ [] ∧
        parseSize a = some n ∧ .insert n (some (strtokR space save).2) = e := by
  obtain ⟨first, -⟩ := strtokR_fields space save
  rw [← first]
  simp only [parseInsert]
  cases (strtokR space save).1 with
  | none => simp
  | some a => by_cases empty : (strtokR space save).2 = [] <;> simp [empty]

/-- The dispatch by kind of command: one position, two numbers, content, a link, or
no command at all. -/
theorem parseEdit_cases (cmd save : Text) :
    (cmd = ascii "INSERT" ∧ parseEdit cmd save = parseInsert save) ∨
      (cmd = ascii "LINK" ∧ parseEdit cmd save = parseLink save) ∨
      ((cmd ≠ ascii "INSERT" ∧ cmd ≠ ascii "LINK") ∧
        ((numericPlaces cmd = 1 ∧ ∃ edit, parseEdit cmd save = parsePosition edit save ∧
            ∀ n, numbers (edit n) = [n] ∧ payload (edit n) = []) ∨
          (numericPlaces cmd = 2 ∧ ∃ edit, parseEdit cmd save = parsePair edit save ∧
            ∀ n k, numbers (edit n k) = [n, k] ∧ payload (edit n k) = []) ∨
          (numericPlaces cmd = 0 ∧ parseEdit cmd save = none))) := by
  by_cases known : cmd ∈ writeCommands
  · simp only [writeCommands, List.mem_cons, List.not_mem_nil, or_false] at known
    rcases known with rfl | rfl | rfl | rfl | rfl | rfl | rfl | rfl | rfl | rfl | rfl | rfl
    · exact .inl ⟨rfl, rfl⟩
    · exact .inr (.inr ⟨by decide, .inr (.inl ⟨by decide, .delete, rfl, fun _ _ => ⟨rfl, rfl⟩⟩)⟩)
    · exact .inr (.inr ⟨by decide, .inl ⟨by decide, .newline, rfl, fun _ => ⟨rfl, rfl⟩⟩⟩)
    · exact .inr (.inr ⟨by decide, .inr (.inl ⟨by decide, .heading, rfl, fun _ _ => ⟨rfl, rfl⟩⟩)⟩)
    · exact .inr (.inr ⟨by decide, .inr (.inl ⟨by decide, .bold, rfl, fun _ _ => ⟨rfl, rfl⟩⟩)⟩)
    · exact .inr (.inr ⟨by decide, .inr (.inl ⟨by decide, .italic, rfl, fun _ _ => ⟨rfl, rfl⟩⟩)⟩)
    · exact .inr (.inr ⟨by decide, .inl ⟨by decide, .blockquote, rfl, fun _ => ⟨rfl, rfl⟩⟩⟩)
    · exact .inr (.inr ⟨by decide, .inl ⟨by decide, .orderedList, rfl, fun _ => ⟨rfl, rfl⟩⟩⟩)
    · exact .inr (.inr ⟨by decide, .inl ⟨by decide, .unorderedList, rfl, fun _ => ⟨rfl, rfl⟩⟩⟩)
    · exact .inr (.inr ⟨by decide, .inr (.inl ⟨by decide, .code, rfl, fun _ _ => ⟨rfl, rfl⟩⟩)⟩)
    · exact .inr (.inr ⟨by decide, .inl ⟨by decide, .horizontalRule, rfl, fun _ => ⟨rfl, rfl⟩⟩⟩)
    · exact .inr (.inl ⟨rfl, rfl⟩)
  · simp only [writeCommands, List.mem_cons, List.not_mem_nil, or_false, not_or] at known
    right
    right
    refine ⟨⟨known.1, known.2.2.2.2.2.2.2.2.2.2.2⟩, .inr (.inr ⟨?_, ?_⟩)⟩
    · simp [numericPlaces, known]
    · simp [parseEdit, known]

/-- Whatever makes an edit call has the arguments of its command, and the call receives
the numbers read from them. -/
theorem parseEdit_numbers {cmd save : Text} {edit : Edit}
    (parsed : parseEdit cmd save = some edit) :
    ArgumentsFit cmd (fields [space] save) (strtokR space save).2 ∧
      ((fields [space] save).take (numericPlaces cmd)).map parseSize = (numbers edit).map some := by
  obtain ⟨rfl, parse⟩ | ⟨rfl, parse⟩ | ⟨⟨notInsert, notLink⟩, one | two | unknown⟩ :=
    parseEdit_cases cmd save
  · obtain ⟨a, n, first, content, value, rfl⟩ := parseInsert_eq_some_iff.mp (parse ▸ parsed)
    obtain ⟨rest, split⟩ := List.head?_eq_some_iff.mp first
    rw [split]
    exact ⟨content, congrArg (fun x => [x]) value⟩
  · obtain ⟨a, b, url, n, k, split, first, second, rfl⟩ :=
      parseLink_eq_some_iff.mp (parse ▸ parsed)
    rw [split]
    exact ⟨rfl, congrArg₂ (fun x y => [x, y]) first second⟩
  · obtain ⟨places, call, parse, receives⟩ := one
    obtain ⟨a, n, split, value, rfl⟩ := parsePosition_eq_some_iff.mp (parse ▸ parsed)
    rw [ArgumentsFit, if_neg notInsert, if_neg notLink, places, split, (receives n).1]
    exact ⟨⟨Nat.one_pos, rfl⟩, congrArg (fun x => [x]) value⟩
  · obtain ⟨places, call, parse, receives⟩ := two
    obtain ⟨a, b, n, k, split, first, second, rfl⟩ := parsePair_eq_some_iff.mp (parse ▸ parsed)
    rw [ArgumentsFit, if_neg notInsert, if_neg notLink, places, split, (receives n k).1]
    exact ⟨⟨Nat.two_pos, rfl⟩, congrArg₂ (fun x y => [x, y]) first second⟩
  · rw [unknown.2] at parsed
    contradiction

/-- The text that a call receives is part of what stands behind the command. -/
theorem parseEdit_payload {cmd save : Text} {edit : Edit}
    (parsed : parseEdit cmd save = some edit) :
    ∀ text ∈ payload edit, text ⊆ save := by
  obtain ⟨rfl, parse⟩ | ⟨rfl, parse⟩ | ⟨-, one | two | unknown⟩ := parseEdit_cases cmd save
  · obtain ⟨a, n, -, -, -, rfl⟩ := parseInsert_eq_some_iff.mp (parse ▸ parsed)
    exact List.forall_mem_singleton.mpr (strtokR_subset space save)
  · obtain ⟨a, b, url, n, k, split, -, -, rfl⟩ := parseLink_eq_some_iff.mp (parse ▸ parsed)
    have isField : url ∈ fields [space] save := by simp [split]
    exact List.forall_mem_singleton.mpr fun c inside => (mem_of_mem_fields isField inside).2
  · obtain ⟨-, call, parse, carries⟩ := one
    obtain ⟨a, n, -, -, rfl⟩ := parsePosition_eq_some_iff.mp (parse ▸ parsed)
    simp [(carries n).2]
  · obtain ⟨-, call, parse, carries⟩ := two
    obtain ⟨a, b, n, k, -, -, -, rfl⟩ := parsePair_eq_some_iff.mp (parse ▸ parsed)
    simp [(carries n k).2]
  · rw [unknown.2] at parsed
    contradiction

/-- A command with its arguments makes an edit call if its numbers can be read. -/
theorem exists_parseEdit {cmd save : Text}
    (fit : ArgumentsFit cmd (fields [space] save) (strtokR space save).2)
    (readable : ∀ token ∈ (fields [space] save).take (numericPlaces cmd),
      (parseSize token).isSome) :
    ∃ edit, parseEdit cmd save = some edit := by
  obtain ⟨rfl, parse⟩ | ⟨rfl, parse⟩ | ⟨⟨notInsert, notLink⟩, one | two | unknown⟩ :=
    parseEdit_cases cmd save
  · obtain ⟨first, -⟩ := strtokR_fields space save
    cases split : fields [space] save with
    | nil =>
        rw [split] at first
        exact absurd (strtokR_rest_of_none first) fit
    | cons a rest =>
        rw [split, numericPlaces_insert] at readable
        obtain ⟨n, value⟩ := Option.isSome_iff_exists.mp (readable a (by simp))
        exact ⟨_, parse.trans (parseInsert_eq_some_iff.mpr
          ⟨a, n, by rw [split]; rfl, fit, value, rfl⟩)⟩
  · have three : (fields [space] save).length = 3 := fit
    obtain ⟨a, b, url, split⟩ := List.length_eq_three.mp three
    rw [split, numericPlaces_link] at readable
    obtain ⟨n, first⟩ := Option.isSome_iff_exists.mp (readable a (by simp))
    obtain ⟨k, second⟩ := Option.isSome_iff_exists.mp (readable b (by simp))
    exact ⟨_, parse.trans (parseLink_eq_some_iff.mpr
      ⟨a, b, url, n, k, split, first, second, rfl⟩)⟩
  · obtain ⟨places, call, parse, -⟩ := one
    rw [ArgumentsFit, if_neg notInsert, if_neg notLink, places] at fit
    obtain ⟨a, split⟩ := List.length_eq_one_iff.mp fit.2
    rw [split, places] at readable
    obtain ⟨n, value⟩ := Option.isSome_iff_exists.mp (readable a (by simp))
    exact ⟨_, parse.trans (parsePosition_eq_some_iff.mpr ⟨a, n, split, value, rfl⟩)⟩
  · obtain ⟨places, call, parse, -⟩ := two
    rw [ArgumentsFit, if_neg notInsert, if_neg notLink, places] at fit
    obtain ⟨a, b, split⟩ := List.length_eq_two.mp fit.2
    rw [split, places] at readable
    obtain ⟨n, first⟩ := Option.isSome_iff_exists.mp (readable a (by simp))
    obtain ⟨k, second⟩ := Option.isSome_iff_exists.mp (readable b (by simp))
    exact ⟨_, parse.trans (parsePair_eq_some_iff.mpr ⟨a, b, n, k, split, first, second, rfl⟩)⟩
  · rw [ArgumentsFit, if_neg notInsert, if_neg notLink, unknown.1] at fit
    exact absurd fit.1 (Nat.lt_irrefl 0)

/-! ## Lines -/

/-- A line that makes an edit call is arranged as its command, and the call receives the
numbers read from it. -/
theorem parseLine_numbers {role : UserRole} {line : Text} {edit : Edit}
    (parsed : parseLine role line = .ok edit) :
    Arranged line ∧ (numericArguments line).map parseSize = (numbers edit).map some := by
  obtain ⟨valid, cmd, save, first, -, called⟩ := parseLine_eq_ok_iff.mp parsed
  have split := fields_of_strtokR first
  obtain ⟨fit, same⟩ := parseEdit_numbers called
  have content : (strtokR space save).2 = insertContent line := by
    rw [insertContent, first]
  rw [content] at fit
  rw [numericArguments, split]
  exact ⟨⟨valid, cmd, fields [space] save, split, fit⟩, same⟩

/-- The text that a call receives is part of the line. -/
theorem parseLine_payload {role : UserRole} {line : Text} {edit : Edit}
    (parsed : parseLine role line = .ok edit) : ∀ text ∈ payload edit, text ⊆ line := by
  obtain ⟨-, cmd, save, first, -, called⟩ := parseLine_eq_ok_iff.mp parsed
  have behind : save ⊆ withoutTrailingNewline line := by
    have within := strtokR_subset space (withoutTrailingNewline line)
    rwa [first] at within
  have stripped : withoutTrailingNewline line ⊆ line := by
    unfold withoutTrailingNewline
    split
    · exact List.dropLast_subset line
    · exact List.Subset.refl line
  intro text carried c member
  exact stripped (behind (parseEdit_payload called text carried member))

/-- A line arranged as a command makes a call for a writer if its numbers can be read. -/
theorem exists_parseLine {line : Text} (arranged : Arranged line)
    (readable : ∀ token ∈ numericArguments line, (parseSize token).isSome) :
    ∃ edit, parseLine .write line = .ok edit := by
  obtain ⟨valid, cmd, args, split, fit⟩ := arranged
  obtain ⟨head, tail⟩ := strtokR_fields space (withoutTrailingNewline line)
  rw [numericArguments, split] at readable
  rw [split] at head tail
  obtain ⟨save, first⟩ : ∃ save, strtokR space (withoutTrailingNewline line) = (some cmd, save) :=
    ⟨_, Prod.ext head rfl⟩
  rw [insertContent, first] at fit
  rw [first] at tail
  obtain rfl : fields [space] save = args := tail
  obtain ⟨edit, called⟩ := exists_parseEdit fit readable
  exact ⟨edit, parseLine_eq_ok_iff.mpr ⟨valid, cmd, save, first, by simp, called⟩⟩

end CollabMarkdown.Command
