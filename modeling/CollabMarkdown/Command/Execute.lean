import CollabMarkdown.CString.Scan
import CollabMarkdown.Markdown.Edit

/-!
# Command lines

`command_execute` checks a raw line, splits it into tokens and makes one edit
call.  `parseEdit` is the dispatch on the command name, up to the point where
the source makes the call: it is absent on every path that rejects the line as
an invalid command.
-/

namespace CollabMarkdown.Command

open CollabMarkdown.CString
open CollabMarkdown.Markdown

/-- `user_role`. -/
inductive UserRole where
  | read
  | write
  deriving DecidableEq, Repr

/-- `command_result`. -/
inductive CommandResult where
  | success
  | rejectUnauthorised
  | rejectInvalidPosition
  | rejectDeletedPosition
  | rejectOutdatedVersion
  | rejectInvalidCommand
  deriving DecidableEq, Repr

/-- `MAX_COMMAND_LEN`. -/
def maxCommandLen : Nat := 256

/-! ## Parsing -/

/-- The names that `is_write_command` compares with. -/
def writeCommands : List Text :=
  [ascii "INSERT", ascii "DEL", ascii "NEWLINE", ascii "HEADING", ascii "BOLD", ascii "ITALIC",
    ascii "BLOCKQUOTE", ascii "ORDERED_LIST", ascii "UNORDERED_LIST", ascii "CODE",
    ascii "HORIZONTAL_RULE", ascii "LINK"]

/-- `is_write_command`. -/
def isWriteCommand (cmd : Text) : Bool :=
  cmd ∈ writeCommands

/-- `map_markdown_result`. -/
def mapMarkdownResult : MarkdownResult → CommandResult
  | .success => .success
  | .invalidCursorPos => .rejectInvalidPosition
  | .deletedPosition => .rejectDeletedPosition
  | .outdatedVersion => .rejectOutdatedVersion

/-- The bytes of a line are printable; a newline may end it. -/
def validBytes : Text → Bool
  | [] => true
  | c :: rest =>
      if c == newline then rest.isEmpty
      else 32 ≤ c && c ≤ 126 && validBytes rest

/-- `validate_raw_command_line`. -/
def validateRawCommandLine (line : Text) : Bool :=
  !line.isEmpty && line.length ≤ maxCommandLen && validBytes line

/-- A line without its last byte when that is a newline. -/
def withoutTrailingNewline (line : Text) : Text :=
  if line.getLast? = some newline then line.dropLast else line

theorem length_withoutTrailingNewline_le (line : Text) :
    (withoutTrailingNewline line).length ≤ line.length := by
  unfold withoutTrailingNewline
  split
  · rw [List.length_dropLast]
    exact Nat.sub_le _ _
  · exact Nat.le_refl _

/-- `parse_size`, of a token that is there. -/
def parseSize (s : Text) : Option Nat :=
  if s.isEmpty then
    none
  else
    let (value, rest) := strtoul s
    if rest.isEmpty then some value else none

/-- The arguments `pos`, and nothing else. -/
def parsePosition (edit : Nat → Edit) (save : Text) : Option Edit :=
  let (posS, save) := strtokR space save
  let (extra, _) := strtokR space save
  match posS, extra with
  | some posS, none => (parseSize posS).map edit
  | _, _ => none

/-- Two numeric arguments, and nothing else. -/
def parsePair (edit : Nat → Nat → Edit) (save : Text) : Option Edit :=
  let (firstS, save) := strtokR space save
  let (secondS, save) := strtokR space save
  let (extra, _) := strtokR space save
  match firstS, secondS, extra with
  | some firstS, some secondS, none =>
      (parseSize firstS).bind fun first => (parseSize secondS).map fun second => edit first second
  | _, _, _ => none

/-- A position, then the raw rest of the line as content. -/
def parseInsert (save : Text) : Option Edit :=
  let (posS, content) := strtokR space save
  match posS with
  | some posS =>
      if content.isEmpty then none
      else (parseSize posS).map fun pos => .insert pos (some content)
  | none => none

/-- Two positions and a URL without spaces, and nothing else. -/
def parseLink (save : Text) : Option Edit :=
  let (startS, save) := strtokR space save
  let (stopS, save) := strtokR space save
  let (url, save) := strtokR space save
  let (extra, _) := strtokR space save
  match startS, stopS, url, extra with
  | some startS, some stopS, some url, none =>
      (parseSize startS).bind fun start =>
        (parseSize stopS).map fun stop => .link start stop (some url)
  | _, _, _, _ => none

/-- The edit call that a command name and the rest of its line ask for. -/
def parseEdit (cmd save : Text) : Option Edit :=
  if cmd = ascii "INSERT" then parseInsert save
  else if cmd = ascii "DEL" then parsePair .delete save
  else if cmd = ascii "NEWLINE" then parsePosition .newline save
  else if cmd = ascii "HEADING" then parsePair .heading save
  else if cmd = ascii "BOLD" then parsePair .bold save
  else if cmd = ascii "ITALIC" then parsePair .italic save
  else if cmd = ascii "BLOCKQUOTE" then parsePosition .blockquote save
  else if cmd = ascii "ORDERED_LIST" then parsePosition .orderedList save
  else if cmd = ascii "UNORDERED_LIST" then parsePosition .unorderedList save
  else if cmd = ascii "CODE" then parsePair .code save
  else if cmd = ascii "HORIZONTAL_RULE" then parsePosition .horizontalRule save
  else if cmd = ascii "LINK" then parseLink save
  else none

/-! ## Execution -/

variable {m : Type → Type} [Monad m] [MonadMalloc m]

/-- `copy_without_trailing_newline`. -/
def copyWithoutTrailingNewline (line : Text) : m (Option Text) := do
  if ← malloc ((withoutTrailingNewline line).length + 1) then
    return some (withoutTrailingNewline line)
  else
    return none

/-- `command_execute`. -/
def commandExecute (s : Store) (version : UInt64) (role : UserRole) (line : Option Text) :
    m (CommandResult × Store) := do
  match line with
  | none => return (.rejectInvalidCommand, s)
  | some line =>
      if !validateRawCommandLine line then
        return (.rejectInvalidCommand, s)
      else
        match ← copyWithoutTrailingNewline line with
        | none => return (.rejectInvalidCommand, s)
        | some buf =>
            match strtokR space buf with
            | (none, _) => return (.rejectInvalidCommand, s)
            | (some cmd, save) =>
                if isWriteCommand cmd ∧ role ≠ .write then
                  return (.rejectUnauthorised, s)
                else
                  match parseEdit cmd save with
                  | none => return (.rejectInvalidCommand, s)
                  | some edit =>
                      let (result, s) ← edit.run s version
                      return (mapMarkdownResult result, s)

/-- `command_result_to_string`. -/
def commandResultToString : CommandResult → Text
  | .success => ascii "SUCCESS"
  | .rejectUnauthorised => ascii "Reject UNAUTHORISED"
  | .rejectInvalidPosition => ascii "Reject INVALID_POSITION"
  | .rejectDeletedPosition => ascii "Reject DELETED_POSITION"
  | .rejectOutdatedVersion => ascii "Reject OUTDATED_VERSION"
  | .rejectInvalidCommand => ascii "Reject INVALID_COMMAND"

/-! ## With allocations succeeding -/

/-- What a line asks for, from the role that sends it: an edit call, or the
result it is rejected with before any call. -/
def parseLine (role : UserRole) (line : Text) : Except CommandResult Edit :=
  if !validateRawCommandLine line then
    .error .rejectInvalidCommand
  else
    match strtokR space (withoutTrailingNewline line) with
    | (none, _) => .error .rejectInvalidCommand
    | (some cmd, save) =>
        if isWriteCommand cmd ∧ role ≠ .write then
          .error .rejectUnauthorised
        else
          match parseEdit cmd save with
          | none => .error .rejectInvalidCommand
          | some edit => .ok edit

/-- A line makes a call if it is valid, its sender may use the command on it, and the
command can be parsed. -/
theorem parseLine_eq_ok_iff {role : UserRole} {line : Text} {edit : Edit} :
    parseLine role line = .ok edit ↔
      validateRawCommandLine line = true ∧
        ∃ cmd save, strtokR space (withoutTrailingNewline line) = (some cmd, save) ∧
          ¬(isWriteCommand cmd = true ∧ role ≠ .write) ∧ parseEdit cmd save = some edit := by
  unfold parseLine
  by_cases valid : validateRawCommandLine line = true
  · rcases strtokR space (withoutTrailingNewline line) with ⟨_ | cmd, save⟩
    · simp [valid]
    · by_cases unauthorised : isWriteCommand cmd = true ∧ role ≠ .write
      · simp [valid, unauthorised]
      · have authorised : isWriteCommand cmd = true → role = .write := by
          simpa using unauthorised
        cases parsed : parseEdit cmd save with
        | none => simp [valid, unauthorised, parsed]
        | some call => simpa [valid, unauthorised, parsed] using fun _ => authorised
  · simp [valid]

/-- A line that makes no call is an invalid command, or its sender may not edit. -/
theorem parseLine_error {role : UserRole} {line : Text} {r : CommandResult}
    (rejected : parseLine role line = .error r) :
    r = .rejectInvalidCommand ∨ role = .read ∧ r = .rejectUnauthorised := by
  unfold parseLine at rejected
  split at rejected
  · cases rejected
    exact .inl rfl
  split at rejected
  · cases rejected
    exact .inl rfl
  split at rejected
  · rename_i unauthorised
    cases rejected
    cases role with
    | read => exact .inr ⟨rfl, rfl⟩
    | write => exact absurd rfl unauthorised.2
  split at rejected
  · cases rejected
    exact .inl rfl
  · contradiction

@[simp]
theorem run_copyWithoutTrailingNewline (line : Text) :
    Id.run (copyWithoutTrailingNewline line) = some (withoutTrailingNewline line) := by
  simp [copyWithoutTrailingNewline]

/-- A line is rejected before any call, or makes the one call it asks for. -/
theorem run_commandExecute (s : Store) (version : UInt64) (role : UserRole) (line : Text) :
    Id.run (commandExecute s version role (some line)) =
      match parseLine role line with
      | .error r => (r, s)
      | .ok edit =>
          (mapMarkdownResult (Id.run (edit.run s version)).1, (Id.run (edit.run s version)).2) := by
  unfold commandExecute parseLine
  by_cases valid : validateRawCommandLine line
  · simp only [valid, Bool.not_true, Bool.false_eq_true, if_false, Id.run_bind,
      run_copyWithoutTrailingNewline]
    cases strtokR space (withoutTrailingNewline line) with
    | mk cmd save =>
        cases cmd with
        | none => simp
        | some cmd =>
            by_cases unauthorised : isWriteCommand cmd = true ∧ role ≠ .write
            · simp [unauthorised]
            · cases parsed : parseEdit cmd save <;> simp [unauthorised, parsed]
  · simp [valid]

/-! ## Lines without their newline -/

theorem newline_or_printable {line : Text} (valid : validBytes line = true) {c : Byte}
    (member : c ∈ line) : c = newline ∨ (32 ≤ c ∧ c ≤ 126) := by
  induction line with
  | nil => contradiction
  | cons d rest ih =>
      by_cases ends : d = newline
      · have last : rest = [] := by simpa [validBytes, ends] using valid
        rw [last, List.mem_singleton] at member
        exact .inl (member.trans ends)
      · have parts : (32 ≤ d ∧ d ≤ 126) ∧ validBytes rest = true := by
          simpa [validBytes, ends] using valid
        rcases List.mem_cons.mp member with rfl | later
        · exact .inr parts.1
        · exact ih parts.2 later

theorem withoutTrailingNewline_cons (c : Byte) {rest : Text} (more : rest ≠ []) :
    withoutTrailingNewline (c :: rest) = c :: withoutTrailingNewline rest := by
  obtain ⟨d, rest, rfl⟩ := List.exists_cons_of_ne_nil more
  unfold withoutTrailingNewline
  rw [List.getLast?_cons_cons]
  split <;> rfl

theorem withoutTrailingNewline_of_notMem {line : Text} (absent : newline ∉ line) :
    withoutTrailingNewline line = line := by
  unfold withoutTrailingNewline
  rw [if_neg]
  exact fun last => absent (List.mem_of_getLast? last)

/-- Without its newline a valid line holds no other one. -/
theorem validBytes_withoutTrailingNewline {line : Text} (valid : validBytes line = true) :
    validBytes (withoutTrailingNewline line) = true ∧ newline ∉ withoutTrailingNewline line := by
  induction line with
  | nil => exact ⟨rfl, List.not_mem_nil⟩
  | cons c rest ih =>
      by_cases ends : c = newline
      · subst ends
        have last : rest = [] := by simpa [validBytes] using valid
        subst last
        exact ⟨rfl, List.not_mem_nil⟩
      · have parts : (32 ≤ c ∧ c ≤ 126) ∧ validBytes rest = true := by
          simpa [validBytes, ends] using valid
        by_cases more : rest = []
        · subst more
          have alone : newline ∉ [c] := by simpa using Ne.symm ends
          rw [withoutTrailingNewline_of_notMem alone]
          exact ⟨valid, alone⟩
        · obtain ⟨validRest, absent⟩ := ih parts.2
          rw [withoutTrailingNewline_cons c more]
          constructor
          · simpa [validBytes, ends] using ⟨parts.1, validRest⟩
          · simpa using ⟨Ne.symm ends, absent⟩

/-- A line that asks for an edit call asks for the same one without its newline,
from any writer. -/
theorem parseLine_withoutTrailingNewline {role : UserRole} {line : Text} {edit : Edit}
    (parsed : parseLine role line = .ok edit) :
    parseLine .write (withoutTrailingNewline line) = .ok edit := by
  obtain ⟨accepted, cmd, save, first, -, called⟩ := parseLine_eq_ok_iff.mp parsed
  have raw : (line ≠ [] ∧ line.length ≤ maxCommandLen) ∧ validBytes line = true := by
    simpa [validateRawCommandLine] using accepted
  obtain ⟨validStripped, absent⟩ := validBytes_withoutTrailingNewline raw.2
  have shorter : (withoutTrailingNewline line).length ≤ line.length := by
    unfold withoutTrailingNewline
    split <;> simp
  have nonempty : withoutTrailingNewline line ≠ [] := by
    intro empty
    rw [empty] at first
    simp [strtokR] at first
  have valid : validateRawCommandLine (withoutTrailingNewline line) = true := by
    simpa [validateRawCommandLine, nonempty, validStripped] using
      Nat.le_trans shorter raw.1.2
  rw [← withoutTrailingNewline_of_notMem absent] at first
  exact parseLine_eq_ok_iff.mpr ⟨valid, cmd, save, first, by simp, called⟩

theorem mapMarkdownResult_eq_success_iff {r : MarkdownResult} :
    mapMarkdownResult r = .success ↔ r = .success := by
  cases r <;> simp [mapMarkdownResult]

end CollabMarkdown.Command
