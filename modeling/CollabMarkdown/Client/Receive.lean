import CollabMarkdown.CString.Lines
import CollabMarkdown.Core.Decoding

/-!
# Receiving broadcasts

When the server stream is readable, the client displays one line of it; a line
that opens a payload is followed by the rest of the payload, up to a chunk that
reads `END`.  Lines come in through a buffer of 512 bytes, so a long line of the
payload is displayed in several chunks.
-/

namespace CollabMarkdown.Client

open CollabMarkdown.CString
open CollabMarkdown.Command
open CollabMarkdown.Core
open CollabMarkdown.Markdown
open CollabMarkdown.Sequence

/-! ## The loop -/

/-- `sizeof(output)`. -/
def outputSize : Nat := 512

/-- `strncmp(output, "VERSION ", 8) == 0`. -/
def opensPayload (output : Text) : Bool :=
  (ascii "VERSION ").isPrefixOf (untilNul output)

/-- `strcmp(output, "END\n") == 0`. -/
def closesPayload (output : Text) : Bool :=
  untilNul output == ascii "END\n"

/-- The inner loop: the chunks it displays and the bytes it leaves, absent while a
read blocks.  At end of file it just stops. -/
def receiveRest (closed : Bool) (pending : Text) : Option (List Text × Text) :=
  match _read : fgets outputSize closed pending with
  | none => none
  | some (none, rest) => some ([], rest)
  | some (some output, rest) =>
      if closesPayload output then
        some ([output], rest)
      else
        (receiveRest closed rest).map fun (chunks, left) => (output :: chunks, left)
termination_by pending.length
decreasing_by exact fgets_shorter _read

/-- One pass over a readable stream.  No chunks means that the client leaves its
loop at end of file. -/
def receivePass (closed : Bool) (pending : Text) : Option (Option (List Text) × Text) :=
  match fgets outputSize closed pending with
  | none => none
  | some (none, rest) => some (none, rest)
  | some (some output, rest) =>
      if opensPayload output then
        (receiveRest closed rest).map fun (chunks, left) => (some (output :: chunks), left)
      else
        some (some [output], rest)

/-- What a number of passes display. -/
def receivePasses (closed : Bool) : Nat → Text → Option (List (List Text) × Text)
  | 0, pending => some ([], pending)
  | passes + 1, pending =>
      match receivePass closed pending with
      | none => none
      | some (none, rest) => some ([], rest)
      | some (some shown, rest) =>
          (receivePasses closed passes rest).map fun (later, left) => (shown :: later, left)

/-! ## Chunks of a payload -/

/-- A chunk without a newline does not close a payload. -/
theorem closesPayload_of_notMem {chunk : Text} (absent : newline ∉ chunk) :
    closesPayload chunk = false := by
  rw [Bool.eq_false_iff]
  intro closes
  have read : untilNul chunk = endLine := beq_iff_eq.mp closes
  have inside : newline ∈ untilNul chunk := read ▸ by decide
  exact absent ((List.takeWhile_prefix _).subset inside)

/-- A line closes a payload only if it is the closing line. -/
theorem closesPayload_of_ne {frame : Text} (absent : newline ∉ frame) (other : frame ≠ endFrame) :
    closesPayload (frame ++ [newline]) = false := by
  rw [Bool.eq_false_iff]
  intro closes
  have read : untilNul (frame ++ [newline]) = endLine := beq_iff_eq.mp closes
  have isPrefix : untilNul (frame ++ [newline]) <+: frame ++ [newline] := List.takeWhile_prefix _
  rw [read, endLine_eq] at isPrefix
  obtain ⟨rest, whole⟩ := isPrefix
  rw [List.append_assoc] at whole
  exact other (frame_inj (by decide) absent whole).1.symm

/-- The inner loop runs through a line that does not end in `END`. -/
theorem receiveRest_line (closed : Bool) {frame : Text} (rest : Text) (absent : newline ∉ frame)
    (goesOn : ¬endFrame <:+ frame) :
    receiveRest closed (frame ++ newline :: rest) =
      (receiveRest closed rest).map fun (chunks, left) =>
        (lineChunks (outputSize - 1) frame ++ chunks, left) := by
  induction frame using lineChunks.induct (outputSize - 1) with
  | case1 frame whole =>
      have fits : frame.length < outputSize - 1 := whole.resolve_right (by decide)
      have other : frame ≠ endFrame := fun same => goesOn (same ▸ List.suffix_rfl)
      rw [receiveRest, fgets_of_fits closed rest absent fits, lineChunks_of_fits fits]
      simp [closesPayload_of_ne absent other]
  | case2 frame overlong ih =>
      have long : outputSize - 1 ≤ frame.length := by omega
      have absentTake : newline ∉ frame.take (outputSize - 1) := fun inside =>
        absent (List.mem_of_mem_take inside)
      have later := ih (fun inside => absent (List.mem_of_mem_drop inside))
        (fun ends => goesOn (ends.trans (List.drop_suffix _ _)))
      rw [receiveRest, fgets_of_overlong closed (newline :: rest) absent (by decide) long]
      simp only [closesPayload_of_notMem absentTake, Bool.false_eq_true, if_false, later,
        lineChunks_of_overlong (by decide) long, Option.map_map]
      rfl

theorem receiveRest_end (closed : Bool) (rest : Text) :
    receiveRest closed (endFrame ++ newline :: rest) = some ([endLine], rest) := by
  have closes : closesPayload (endFrame ++ [newline]) = true := by decide
  rw [receiveRest, fgets_of_fits closed rest (by decide) (by decide)]
  simp only [closes, if_true]
  rfl

/-- The result string keeps a line of the log from ending in `END`. -/
theorem editFrame_goesOn (entry : EditLogEntry) : ¬endFrame <:+ editFrame entry := by
  intro ends
  have result : commandResultToString entry.result <:+ editFrame entry := List.suffix_append _ _
  have length_le : endFrame.length ≤ (commandResultToString entry.result).length := by
    cases entry.result <;> decide
  have tail := List.suffix_of_suffix_length_le ends result length_le
  revert tail
  cases entry.result <;> decide

/-- What the inner loop displays of a log. -/
def logChunks (entries : List EditLogEntry) : List Text :=
  entries.flatMap (fun entry => lineChunks (outputSize - 1) (editFrame entry)) ++ [endLine]

theorem receiveRest_log (closed : Bool) {entries : List EditLogEntry} (rest : Text)
    (decodable : ∀ entry ∈ entries, entry.Decodable) :
    receiveRest closed (entries.flatMap (fun entry => editFrame entry ++ [newline]) ++
        (endFrame ++ newline :: rest)) = some (logChunks entries, rest) := by
  induction entries with
  | nil => exact receiveRest_end closed rest
  | cons entry entries ih =>
      have absent := (decodable entry List.mem_cons_self).newline_notMem
      have later := ih fun other member => decodable other (List.mem_cons_of_mem _ member)
      simp only [List.flatMap_cons, List.append_assoc, List.cons_append, List.nil_append]
      rw [receiveRest_line closed _ absent (editFrame_goesOn entry), later]
      simp [logChunks]

/-- What one pass displays of a payload. -/
def payloadChunks (version : UInt64) (entries : List EditLogEntry) : List Text :=
  versionLine version :: logChunks entries

theorem flatten_payloadChunks (version : UInt64) (entries : List EditLogEntry) :
    (payloadChunks version entries).flatten = payloadText version entries := by
  have lines : (entries.flatMap fun entry =>
      lineChunks (outputSize - 1) (editFrame entry)).flatten = entries.flatMap editLine := by
    rw [List.flatMap_def, List.flatten_flatten, List.map_map, List.flatMap_def]
    congr 1
    apply List.map_congr_left
    intro entry _
    exact flatten_lineChunks _ _
  rw [payloadChunks, logChunks, List.flatten_cons, List.flatten_append, lines,
    List.flatten_singleton, payloadText, List.append_assoc]

theorem opensPayload_versionFrame (version : UInt64) (rest : Text) :
    opensPayload (versionFrame version ++ rest) = true := by
  have noNul : (0 : Byte) ∉ ascii "VERSION " := by decide
  rw [opensPayload, versionFrame, List.append_assoc, untilNul_append noNul,
    List.isPrefixOf_iff_prefix]
  exact List.prefix_append _ _

/-- One pass displays one payload, and leaves what follows it. -/
theorem receivePass_payload (closed : Bool) (version : UInt64) {entries : List EditLogEntry}
    (rest : Text) (decodable : ∀ entry ∈ entries, entry.Decodable) :
    receivePass closed (payloadText version entries ++ rest) =
      some (some (payloadChunks version entries), rest) := by
  have fits : (versionFrame version).length < outputSize - 1 := by
    have digits := length_decimal_le version.toNat_lt
    have tag : (ascii "VERSION ").length = 8 := by decide
    rw [versionFrame, List.length_append, tag, outputSize]
    omega
  rw [payloadText_append, receivePass,
    fgets_of_fits closed _ (newline_notMem_versionFrame version) fits]
  simp only [opensPayload_versionFrame, if_true, receiveRest_log closed rest decodable]
  rfl

/-- What the client displays of a broadcast. -/
def broadcastChunks (broadcast : Broadcast) : List Text :=
  payloadChunks broadcast.version broadcast.entries

/-- The first passes display the first payloads, each in one pass. -/
theorem receivePasses_take (closed : Bool) (broadcasts : List Broadcast) (rest : Text)
    {passes : Nat} (available : passes ≤ broadcasts.length) :
    receivePasses closed passes ((broadcasts.map (·.text)).flatten ++ rest) =
      some ((broadcasts.take passes).map broadcastChunks,
        ((broadcasts.drop passes).map (·.text)).flatten ++ rest) := by
  induction passes generalizing broadcasts with
  | zero => rfl
  | succ passes ih =>
      cases broadcasts with
      | nil => contradiction
      | cons broadcast others =>
          have later := ih others (Nat.le_of_succ_le_succ available)
          rw [List.map_cons, List.flatten_cons, List.append_assoc, receivePasses, Broadcast.text,
            receivePass_payload closed broadcast.version _ broadcast.decodable]
          simp only [later]
          rfl

end CollabMarkdown.Client
