import CollabMarkdown.CString.Decimal
import CollabMarkdown.Core.Broadcast
import CollabMarkdown.Sequence.Framing

/-!
# Unique decoding of payloads

Commands stand unescaped between the user and the result of their line.  A payload
can still be read back: users hold no space, commands no newline, and no result
string is the end of another one.
-/

namespace CollabMarkdown.Core

open CollabMarkdown.CString
open CollabMarkdown.Command
open CollabMarkdown.Markdown
open CollabMarkdown.Sequence
open CollabMarkdown.Transition

/-! ## What client threads submit -/

/-- The name of a logged-in user, as the thread's `char username[128]` holds it. -/
structure UserName where
  name : Text
  nonempty : name ≠ []
  length_le : name.length ≤ 127
  noSpace : space ∉ name
  noNewline : newline ∉ name

/-- A line as the command loop reads it. -/
structure CommandLine where
  line : Text
  noNul : 0 ∉ line
  length_le : line.length ≤ 511
  newline_last : newline ∉ line.dropLast

/-- A submission of a client thread, and its result. -/
structure ClientEdit where
  user : UserName
  commandLine : CommandLine
  result : CommandResult

/-- The entry that a submission adds to the log. -/
def ClientEdit.entry (edit : ClientEdit) : EditLogEntry :=
  ⟨edit.user.name, withoutTrailingNewline edit.commandLine.line, edit.result⟩

/-- The calls that client threads make. -/
inductive ClientStep where
  | submit (user : UserName) (role : UserRole) (commandLine : CommandLine)
  | commit

/-- A client's call as a call of the core. -/
def ClientStep.coreStep : ClientStep → CoreStep
  | .submit user role commandLine => .submit (some user.name) role (some commandLine.line)
  | .commit => .commit

/-- A version and the submissions published under it. -/
structure Broadcast where
  version : UInt64
  log : List ClientEdit

namespace Broadcast

/-- The entries of the log that a payload carries. -/
def entries (broadcast : Broadcast) : List EditLogEntry :=
  broadcast.log.map ClientEdit.entry

/-- The payload. -/
def text (broadcast : Broadcast) : Text :=
  payloadText broadcast.version broadcast.entries

end Broadcast

/-! ## Frames -/

/-- A line of the log without its newline. -/
def editFrame (entry : EditLogEntry) : Text :=
  ascii "EDIT " ++ entry.user ++ [space] ++ entry.command ++ [space] ++
    commandResultToString entry.result

/-- The first line of a payload without its newline. -/
def versionFrame (version : UInt64) : Text :=
  ascii "VERSION " ++ decimal version.toNat

/-- The last line of a payload without its newline. -/
def endFrame : Text :=
  ascii "END"

theorem endLine_eq : endLine = endFrame ++ [newline] := by
  decide

/-- The entries whose lines can be told apart. -/
structure EditLogEntry.Decodable (entry : EditLogEntry) : Prop where
  noSpace : space ∉ entry.user
  noNewline : newline ∉ entry.user
  oneLine : newline ∉ entry.command

/-- A line whose newline can only be its last byte holds none once that is gone. -/
theorem newline_notMem_withoutTrailingNewline {line : Text} (last : newline ∉ line.dropLast) :
    newline ∉ withoutTrailingNewline line := by
  unfold withoutTrailingNewline
  split
  · exact last
  · rename_i other
    intro member
    have whole := List.dropLast_append_getLast (List.ne_nil_of_mem member)
    rw [← whole, List.mem_append, List.mem_singleton] at member
    rcases member with inside | final
    · exact last inside
    · exact other (final ▸ List.getLast?_eq_some_getLast _)

/-- What a client thread submits can be printed. -/
theorem ClientEdit.printable (edit : ClientEdit) : edit.entry.Printable := by
  have user : edit.entry.user.length ≤ 127 := edit.user.length_le
  have command : edit.entry.command.length ≤ 511 :=
    Nat.le_trans (length_withoutTrailingNewline_le _) edit.commandLine.length_le
  apply EditLogEntry.printable_of_le
  rw [intMax]
  omega

theorem ClientEdit.decodable (edit : ClientEdit) : edit.entry.Decodable where
  noSpace := edit.user.noSpace
  noNewline := edit.user.noNewline
  oneLine := newline_notMem_withoutTrailingNewline edit.commandLine.newline_last

/-- No result string ends in the string of another result. -/
theorem commandResultToString_suffixFree :
    SuffixFree fun result => space :: commandResultToString result := by
  intro i j
  cases i <;> cases j <;> decide

theorem newline_notMem_commandResultToString (result : CommandResult) :
    newline ∉ commandResultToString result := by
  cases result <;> decide

theorem newline_notMem_versionFrame (version : UInt64) : newline ∉ versionFrame version := by
  rw [versionFrame, List.mem_append, not_or]
  exact ⟨by decide, notMem_decimal _ rfl⟩

namespace EditLogEntry.Decodable

variable {entry other : EditLogEntry}

theorem newline_notMem (decodable : entry.Decodable) : newline ∉ editFrame entry := by
  have tag : newline ∉ ascii "EDIT " := by decide
  have blank : newline ∉ [space] := by decide
  simp only [editFrame, List.mem_append, not_or]
  exact ⟨⟨⟨⟨⟨tag, decodable.noNewline⟩, blank⟩, decodable.oneLine⟩, blank⟩,
    newline_notMem_commandResultToString entry.result⟩

/-- The frame of an entry determines the entry. -/
theorem editFrame_inj (decodable : entry.Decodable) (decodable' : other.Decodable)
    (same : editFrame entry = editFrame other) : entry = other := by
  simp only [editFrame, List.append_assoc, List.singleton_append] at same
  obtain ⟨user, tail⟩ :=
    frame_inj decodable.noSpace decodable'.noSpace (List.append_cancel_left same)
  obtain ⟨command, result⟩ := commandResultToString_suffixFree.append_inj tail
  cases entry
  cases other
  simp_all

end EditLogEntry.Decodable

/-- The lines of a log can be read back up to the closing line. -/
theorem framed_edits : Framed newline endFrame EditLogEntry.Decodable editFrame where
  stop_whole := by decide
  whole _ decodable := decodable.newline_notMem
  goes_on entry _ closed := by
    have second := congrArg (·.drop 1) closed
    simp [editFrame, endFrame, ascii] at second
  distinct _ _ decodable decodable' same := decodable.editFrame_inj decodable' same

/-- A payload, and what follows it on a stream. -/
theorem payloadText_append (version : UInt64) (entries : List EditLogEntry) (rest : Text) :
    payloadText version entries ++ rest =
      versionFrame version ++ newline ::
        (entries.flatMap (fun entry => editFrame entry ++ [newline]) ++
          (endFrame ++ newline :: rest)) := by
  have opening : versionLine version = versionFrame version ++ [newline] := rfl
  have lines : entries.flatMap editLine =
      entries.flatMap (fun entry => editFrame entry ++ [newline]) := rfl
  simp only [payloadText, opening, lines, endLine_eq, List.append_assoc, List.cons_append,
    List.nil_append]

/-- A stream that starts with a payload determines its version, its entries and the
rest of the stream. -/
theorem payloadText_append_inj {version version' : UInt64} {entries entries' : List EditLogEntry}
    {rest rest' : Text} (decodable : ∀ entry ∈ entries, entry.Decodable)
    (decodable' : ∀ entry ∈ entries', entry.Decodable)
    (same : payloadText version entries ++ rest = payloadText version' entries' ++ rest') :
    version = version' ∧ entries = entries' ∧ rest = rest' := by
  rw [payloadText_append, payloadText_append] at same
  obtain ⟨header, body⟩ :=
    frame_inj (newline_notMem_versionFrame version) (newline_notMem_versionFrame version') same
  obtain ⟨entriesEq, restEq⟩ := framed_edits.flatMap_inj decodable decodable' body
  have versionEq := decimal_injective (List.append_cancel_left header)
  exact ⟨UInt64.toNat_inj.mp versionEq, entriesEq, restEq⟩

/-! ## The payloads of client threads -/

theorem Broadcast.decodable (broadcast : Broadcast) :
    ∀ entry ∈ broadcast.entries, entry.Decodable := by
  intro entry member
  obtain ⟨edit, -, rfl⟩ := List.mem_map.mp member
  exact edit.decodable

end CollabMarkdown.Core
