import CollabMarkdown.CString.Decimal
import CollabMarkdown.CString.Lines
import CollabMarkdown.Process.Sections

/-!
# The handshake

After login the server writes the role, the version and the length of the
document as three lines, then the raw document.  The client reads the lines
through a buffer of 256 bytes and the document by its length, in as many calls as
it takes.
-/

namespace CollabMarkdown.Client

open CollabMarkdown.CString
open CollabMarkdown.Command
open CollabMarkdown.Core
open CollabMarkdown.Markdown
open CollabMarkdown.Process

/-! ## The reading sequence -/

/-- `LINE_BUF_SIZE`. -/
def lineBufSize : Nat := 256

/-- `read_line`.  The answer is absent when the read would block, and its line at the
end of the file. -/
def readLine (closed : Bool) (pending : Text) : Option (Option Text × Text) :=
  (fgets lineBufSize closed pending).map fun (buf, rest) => (buf.map untilNul, rest)

/-- The loop of `read_exact`, from the call with the given number on.  No bytes means
that it gives up at end of file. -/
def readExact (reads : ShortReads) (closed : Bool) (call len : Nat) (pending : Text) :
    Option (Option Text × Text) :=
  if len = 0 then
    some (some [], pending)
  else
    match fread reads call len closed pending with
    | none => none
    | some (bytes, rest) =>
        if _zero : bytes.length = 0 then
          some (none, rest)
        else
          (readExact reads closed (call + 1) (len - bytes.length) rest).map
            fun (later, left) => (later.map (bytes ++ ·), left)
termination_by len

/-- `strip_newline`. -/
def stripNewline (s : Text) : Text :=
  withoutTrailingNewline s

/-- What the client knows once it is connected. -/
structure Snapshot where
  role : Text
  version : Nat
  doc : Text
  deriving DecidableEq, Repr

/-- How the handshake ends: with the rejection line printed, with an error, or
connected. -/
inductive Greeting where
  | rejected (line : Text)
  | failed
  | connected (snapshot : Snapshot)
  deriving DecidableEq, Repr

variable {m : Type → Type} [Monad m] [MonadMalloc m]

/-- The document, once its length is known. -/
def readDocument (reads : ShortReads) (closed : Bool) (role : Text) (version docLen : Nat)
    (pending : Text) : m (Option (Greeting × Text)) := do
  if ← malloc (sizeAdd docLen 1) then
    match readExact reads closed 0 docLen pending with
    | none => return none
    | some (none, rest) => return some (.failed, rest)
    | some (some doc, rest) => return some (.connected ⟨role, version, doc⟩, rest)
  else
    return some (.failed, pending)

/-- The reading sequence, absent while a read blocks. -/
def handshake (reads : ShortReads) (closed : Bool) (pending : Text) :
    m (Option (Greeting × Text)) :=
  match readLine closed pending with
  | none => return none
  | some (none, rest) => return some (.failed, rest)
  | some (some line, rest) =>
      let line := stripNewline line
      if (ascii "Reject").isPrefixOf line then
        return some (.rejected line, rest)
      else
        let role := snprintf lineBufSize line
        match readLine closed rest with
        | none => return none
        | some (none, rest) => return some (.failed, rest)
        | some (some line, rest) =>
            let version := (strtoul (stripNewline line)).1
            match readLine closed rest with
            | none => return none
            | some (none, rest) => return some (.failed, rest)
            | some (some line, rest) =>
                let docLen := (strtoul (stripNewline line)).1
                readDocument reads closed role version docLen rest

/-! ## Reading what the server wrote -/

theorem stripNewline_line {line : Text} : stripNewline (line ++ [newline]) = line := by
  simp [stripNewline, withoutTrailingNewline]

/-- A short line is read whole. -/
theorem readLine_line (closed : Bool) {line : Text} (rest : Text) (noNul : 0 ∉ line)
    (absent : newline ∉ line) (fits : line.length < lineBufSize - 1) :
    readLine closed (line ++ newline :: rest) = some (some (line ++ [newline]), rest) := by
  rw [readLine, fgets_of_fits closed rest absent fits]
  simp [untilNul_of_notMem (noNul_line noNul)]

/-- A printed number is read back. -/
theorem readLine_decimal (closed : Bool) {n : Nat} (rest : Text) (fits : n < sizeModulus) :
    readLine closed (decimal n ++ newline :: rest) =
      some (some (decimal n ++ [newline]), rest) := by
  have short := length_decimal_le fits
  apply readLine_line closed rest (notMem_decimal n rfl) (notMem_decimal n rfl)
  rw [lineBufSize]
  omega

/-- One call delivers some of the bytes wanted, when they are there. -/
theorem fread_append (reads : ShortReads) (closed : Bool) (call : Nat) {doc : Text} (rest : Text)
    (wanted : doc ≠ []) :
    ∃ n, 0 < n ∧ n ≤ doc.length ∧
      fread reads call doc.length closed (doc ++ rest) =
        some (doc.take n, doc.drop n ++ rest) := by
  have available : doc ++ rest ≠ [] := fun empty => wanted (List.append_eq_nil_iff.mp empty).1
  have count_le := reads.count_le call doc.length (doc ++ rest).length
  have bound : reads.count call doc.length (doc ++ rest).length ≤ doc.length :=
    Nat.le_trans count_le (Nat.min_le_left _ _)
  refine ⟨reads.count call doc.length (doc ++ rest).length,
    reads.count_pos call (List.length_pos_of_ne_nil wanted) (List.length_pos_of_ne_nil available),
    bound, ?_⟩
  rw [fread, if_neg (by simpa using available)]
  simp only [List.take_append_of_le_length bound, List.drop_append_of_le_length bound]

/-- Short reads add up to the whole document. -/
theorem readExact_append (reads : ShortReads) (closed : Bool) (call : Nat) (doc rest : Text) :
    readExact reads closed call doc.length (doc ++ rest) = some (some doc, rest) := by
  induction total : doc.length using Nat.strongRecOn generalizing call doc with
  | ind len ih =>
      subst total
      by_cases wanted : doc = []
      · subst wanted
        rw [List.length_nil, readExact, if_pos rfl, List.nil_append]
      · obtain ⟨n, positive, bound, delivered⟩ :=
          fread_append reads closed call rest wanted
        have length_pos : 0 < doc.length := List.length_pos_of_ne_nil wanted
        have taken : (doc.take n).length = n := List.length_take_of_le bound
        have left : doc.length - n = (doc.drop n).length := (List.length_drop ..).symm
        have later := ih (doc.drop n).length (by omega) (call + 1) (doc.drop n) rfl
        rw [readExact, if_neg (by omega), delivered]
        simp only [taken, Nat.ne_of_gt positive, dite_false, left, later, Option.map_some,
          List.take_append_drop]

/-! ## The handshake decodes the initial document -/

theorem roleToWireString_notMem (role : UserRole) :
    0 ∉ roleToWireString role ∧ newline ∉ roleToWireString role := by
  cases role <;> decide

theorem run_handshake (reads : ShortReads) (closed : Bool) (role : UserRole) (version : UInt64)
    {text : Text} (rest : Text) (fits : text.length < sizeModulus) :
    Id.run (handshake reads closed (initialDocument role version text ++ rest)) =
      some (.connected ⟨roleToWireString role, version.toNat, text⟩, rest) := by
  obtain ⟨noNul, absent⟩ := roleToWireString_notMem role
  have short : (roleToWireString role).length < lineBufSize - 1 := by cases role <;> decide
  have accepted : (ascii "Reject").isPrefixOf (roleToWireString role) = false := by
    cases role <;> decide
  have stream : initialDocument role version text ++ rest =
      roleToWireString role ++ newline :: (decimal version.toNat ++ newline ::
        (decimal text.length ++ newline :: (text ++ rest))) := by
    simp [initialDocument]
  have roleKept : snprintf lineBufSize (roleToWireString role) = roleToWireString role :=
    snprintf_of_length_lt (Nat.lt_of_lt_of_le short (Nat.sub_le _ _))
  simp only [stream, handshake, readLine_line closed _ noNul absent short, stripNewline_line,
    accepted, Bool.false_eq_true, if_false, roleKept,
    readLine_decimal closed _ version.toNat_lt, readLine_decimal closed _ fits,
    strtoul_decimal version.toNat_lt, strtoul_decimal fits, readDocument, Id.run_bind, run_malloc,
    if_true, readExact_append]
  rfl

/-- What the server writes to a new connection, whatever its document holds, is what
the client reads from it, and the client is left in front of the bytes that
follow. -/
theorem snapshot_decodes (reads : ShortReads) (closed : Bool) (streams : Streams) (out : StreamId)
    (role : UserRole) (srv : Server) (further : Text)
    (fits : srv.store.committedText.length < sizeModulus) :
    let opened := Function.update streams out .empty
    let sent := Id.run (sendInitialDocument opened out role srv)
    sent.1 = true ∧
      Id.run (handshake reads closed ((sent.2 out).written ++ further)) =
        some (.connected ⟨roleToWireString role, srv.core.currentVersion.toNat,
          srv.store.committedText⟩, further) := by
  intro opened sent
  have delivered : sent = (true, Function.update opened out ((opened out).send
      (initialDocument role srv.core.currentVersion srv.store.committedText))) :=
    run_sendInitialDocument opened out role srv
  have written : (sent.2 out).written =
      initialDocument role srv.core.currentVersion srv.store.committedText := by
    have drained : (opened out).buffered = [] := by simp [opened, OutStream.empty]
    simp only [delivered, Function.update_self]
    rw [OutStream.written_send drained]
    simp [opened, OutStream.empty]
  constructor
  · rw [delivered]
  · rw [written]
    exact run_handshake reads closed role srv.core.currentVersion further fits

/-- A document whose first line looks like a rejection. -/
theorem snapshot_decodes_reject :
    let reads : ShortReads :=
      { count := fun _ wanted available => min 1 (min wanted available)
        count_pos := by omega
        count_le := by omega }
    let srv := reached 0 ⟨[], rfl⟩
      [.submit (some (ascii "bob")) .write (some (ascii "INSERT 0 Reject\n")), .commit]
    let opened : Streams := Function.update (fun _ => .empty) 0 .empty
    let sent := Id.run (sendInitialDocument opened 0 .read srv)
    sent.1 = true ∧
      Id.run (handshake reads false ((sent.2 0).written ++ ascii "VERSION 2\nEND\n")) =
        some (.connected ⟨ascii "read", 1, ascii "Reject"⟩, ascii "VERSION 2\nEND\n") :=
  snapshot_decodes _ false (fun _ => .empty) 0 .read _ (ascii "VERSION 2\nEND\n") (by decide)

end CollabMarkdown.Client
