import CollabMarkdown.CString.Decimal
import CollabMarkdown.Command.Session

/-!
# The server core

The core keeps a document, its own copy of the version, and a log of the
commands submitted since the last commit.  A commit applies the pending edits
when the log counts any entry, prints the broadcast payload from the log and
clears it.  A `Server` is a core together with the process-wide `op_lists` in
which the pending edits of its document live.

The payload is measured in one pass and written in a second one, each write at
the running offset with the room that is left.  Both count in `int`s, which say -1 of a
line of more than `INT_MAX` bytes.
-/

namespace CollabMarkdown.Core

open CollabMarkdown.CString
open CollabMarkdown.Command
open CollabMarkdown.Markdown
open CollabMarkdown.Sequence

/-- `edit_log_entry`. -/
structure EditLogEntry where
  user : Text
  command : Text
  result : CommandResult
  deriving DecidableEq, Repr

/-- `server_core`. -/
structure ServerCore where
  doc : Document
  currentVersion : UInt64
  pending : TailList EditLogEntry
  pendingCount : Nat

/-- The core, and `op_lists`, which the documents of a process share. -/
structure Server where
  core : ServerCore
  opLists : List OpList

/-- `sizeof(edit_log_entry)`. -/
def sizeofEditLogEntry : Nat := 32

/-- `sizeof(server_core)`. -/
def sizeofServerCore : Nat := 40

namespace Server

/-- The store that the engine works on. -/
def store (srv : Server) : Store :=
  ⟨srv.core.doc, srv.opLists⟩

/-- The server after a call of the engine on its document. -/
def withStore (srv : Server) (s : Store) : Server where
  core := { srv.core with doc := s.doc }
  opLists := s.opLists

/-- The entries logged since the last commit. -/
def log (srv : Server) : List EditLogEntry :=
  srv.core.pending.head

end Server

/-! ## The payload -/

/-- The line printed for a version. -/
def versionLine (version : UInt64) : Text :=
  ascii "VERSION " ++ decimal version.toNat ++ [newline]

/-- The line printed for an entry of the log. -/
def editLine (entry : EditLogEntry) : Text :=
  ascii "EDIT " ++ entry.user ++ [space] ++ entry.command ++ [space] ++
    commandResultToString entry.result ++ [newline]

/-- The line printed behind the log. -/
def endLine : Text :=
  ascii "END\n"

/-- The line of an entry is no longer than an `int` can say. -/
def EditLogEntry.Printable (entry : EditLogEntry) : Prop :=
  (editLine entry).length ≤ intMax

instance (entry : EditLogEntry) : Decidable entry.Printable :=
  inferInstanceAs (Decidable (_ ≤ _))

/-- The rest of a line takes no more than 31 bytes. -/
theorem EditLogEntry.printable_of_le {entry : EditLogEntry}
    (short : entry.user.length + entry.command.length + 31 ≤ intMax) : entry.Printable := by
  have label : (ascii "EDIT ").length = 5 := by decide
  have result : (commandResultToString entry.result).length ≤ 23 := by
    cases entry.result <;> decide
  simp only [EditLogEntry.Printable, editLine, List.length_append, List.length_singleton, label]
  omega

/-- The first pass: the number of bytes to print, as `snprintf` counts them.  The value of
the `size_t` is this sum reduced modulo `2 ^ 64`. -/
def broadcastPayloadSize (entries : List EditLogEntry) (nextVersion : UInt64) : Int :=
  entries.foldl (fun total entry => total + snprintfResult (editLine entry))
    (snprintfResult (versionLine nextVersion)) + endLine.length

/-- The payload buffer up to its terminator, and the running offset, which as a `size_t` is
reduced modulo `2 ^ 64` too. -/
structure PayloadBuffer where
  bytes : Text
  off : Int
  deriving DecidableEq, Repr

/-- `off += snprintf(payload + off, size + 1 - off, …)`.  A call that returns -1 is taken to
store nothing; C does not say what it stores, and the next call writes over it.  A place
outside the block is undefined behaviour, and nothing is returned. -/
def PayloadBuffer.print (size : Int) (buffer : PayloadBuffer) (line : Text) :
    Option PayloadBuffer :=
  if 0 ≤ buffer.off ∧ buffer.off ≤ size + 1 then
    let stored :=
      if line.length ≤ intMax then snprintf (size + 1 - buffer.off).toNat line else []
    some
      { bytes := buffer.bytes.take buffer.off.toNat ++ stored
        off := buffer.off + snprintfResult line }
  else
    none

/-- The second pass: the bytes printed to a buffer of `size + 1` bytes. -/
def writePayload (size : Int) (entries : List EditLogEntry) (nextVersion : UInt64) :
    Option PayloadBuffer := do
  let header ← PayloadBuffer.print size ⟨[], 0⟩ (versionLine nextVersion)
  let body ← entries.foldlM (fun buffer entry => buffer.print size (editLine entry)) header
  body.print size endLine

/-- Both passes: the string in the buffer afterwards. -/
def printPayload (entries : List EditLogEntry) (nextVersion : UInt64) : Option Text :=
  (writePayload (broadcastPayloadSize entries nextVersion) entries nextVersion).map (·.bytes)

/-! ## The calls -/

variable {m : Type → Type} [Monad m] [MonadMalloc m]

/-- The core with an entry linked behind the log, absent on failure. -/
def appendLogEntry (core : ServerCore) (user commandLine : Text) (result : CommandResult) :
    m (Option ServerCore) := do
  if ← malloc sizeofEditLogEntry then
    let userCopy ← strdup (some user)
    let command ← copyWithoutTrailingNewline commandLine
    match userCopy, command with
    | some user, some command =>
        return some
          { core with
            pending := core.pending.append { user, command, result }
            pendingCount := core.pendingCount + 1 }
    | _, _ => return none
  else
    return none

/-- `server_core_init`. -/
def serverCoreInit (addr : DocAddr) : m (Option ServerCore) := do
  if ← malloc sizeofServerCore then
    match ← markdownInit addr with
    | none => return none
    | some doc => return some { doc, currentVersion := 0, pending := .empty, pendingCount := 0 }
  else
    return none

/-- `server_core_submit`. -/
def serverCoreSubmit (srv : Server) (user : Option Text) (role : UserRole)
    (commandLine : Option Text) : m (CommandResult × Server) := do
  match user, commandLine with
  | some user, some commandLine =>
      let (result, s) ← commandExecute srv.store srv.core.currentVersion role (some commandLine)
      let srv := srv.withStore s
      match ← appendLogEntry srv.core user commandLine result with
      | none => return (.rejectInvalidCommand, srv)
      | some core => return (result, { srv with core })
  | _, _ => return (.rejectInvalidCommand, srv)

/-- The first half of a commit: apply the pending edits if the log counts any. -/
def applyPending (srv : Server) : m Server := do
  if 0 < srv.core.pendingCount then
    let s ← markdownIncrementVersion srv.store
    let srv := srv.withStore s
    return { srv with core := { srv.core with currentVersion := srv.core.doc.currentVersion } }
  else
    return srv

/-- `server_core_commit`. -/
def serverCoreCommit (srv : Server) : m (Option Text × Server) := do
  let srv ← applyPending srv
  let nextVersion := srv.core.currentVersion
  let size := broadcastPayloadSize srv.core.pending.head nextVersion
  if ← malloc ((size + 1) % sizeModulus).toNat then
    return (printPayload srv.core.pending.head nextVersion,
      { srv with core := { srv.core with pending := .empty, pendingCount := 0 } })
  else
    return (none, srv)

/-- `server_core_flatten_doc`. -/
def serverCoreFlattenDoc (srv : Server) : m (Option Text) :=
  markdownFlatten srv.store

/-! ## The two passes agree -/

/-- The payload of a version and a log. -/
def payloadText (version : UInt64) (entries : List EditLogEntry) : Text :=
  versionLine version ++ entries.flatMap editLine ++ endLine

theorem versionLine_printable (version : UInt64) : (versionLine version).length ≤ intMax := by
  have digits := length_decimal_le version.toNat_lt
  have label : (ascii "VERSION ").length = 8 := by decide
  simp only [versionLine, List.length_append, List.length_singleton, label, intMax]
  omega

/-- The lines of a log as `snprintf` counts them. -/
theorem foldl_snprintfResult (entries : List EditLogEntry) (start : Int) :
    entries.foldl (fun total entry => total + snprintfResult (editLine entry)) start =
      start + (entries.map fun entry => snprintfResult (editLine entry)).sum := by
  induction entries generalizing start with
  | nil => simp
  | cons entry rest ih => rw [List.foldl_cons, ih, List.map_cons, List.sum_cons, add_assoc]

/-- The lines count for what they are long, if all are printable. -/
theorem sum_snprintfResult {entries : List EditLogEntry}
    (printable : ∀ entry ∈ entries, entry.Printable) :
    (entries.map fun entry => snprintfResult (editLine entry)).sum =
      (entries.flatMap editLine).length := by
  induction entries with
  | nil => rfl
  | cons entry rest ih =>
      rw [List.forall_mem_cons] at printable
      rw [List.map_cons, List.sum_cons, ih printable.2, snprintfResult_of_le printable.1,
        List.flatMap_cons, List.length_append, Nat.cast_add]

/-- They never count for more, and for less if one is not. -/
theorem sum_snprintfResult_le (entries : List EditLogEntry) :
    (entries.map fun entry => snprintfResult (editLine entry)).sum ≤
      (entries.flatMap editLine).length := by
  induction entries with
  | nil => exact le_refl _
  | cons entry rest ih =>
      have first := snprintfResult_le (editLine entry)
      rw [List.map_cons, List.sum_cons, List.flatMap_cons, List.length_append, Nat.cast_add]
      omega

theorem sum_snprintfResult_lt {entries : List EditLogEntry} {entry : EditLogEntry}
    (member : entry ∈ entries) (wide : ¬entry.Printable) :
    (entries.map fun entry => snprintfResult (editLine entry)).sum <
      (entries.flatMap editLine).length := by
  obtain ⟨before, after, rfl⟩ := List.append_of_mem member
  have first := sum_snprintfResult_le before
  have last := sum_snprintfResult_le after
  have lost : snprintfResult (editLine entry) < (editLine entry).length := by
    rw [snprintfResult_of_lt (Nat.not_le.mp wide)]
    omega
  simp only [List.map_append, List.map_cons, List.sum_append, List.sum_cons, List.flatMap_append,
    List.flatMap_cons, List.length_append, Nat.cast_add]
  omega

theorem broadcastPayloadSize_eq {entries : List EditLogEntry} (version : UInt64)
    (printable : ∀ entry ∈ entries, entry.Printable) :
    broadcastPayloadSize entries version = (payloadText version entries).length := by
  rw [broadcastPayloadSize, foldl_snprintfResult, sum_snprintfResult printable,
    snprintfResult_of_le (versionLine_printable version), payloadText, List.length_append,
    List.length_append, Nat.cast_add, Nat.cast_add]

/-- A line that is not printable is not counted. -/
theorem broadcastPayloadSize_lt {entries : List EditLogEntry} (version : UInt64)
    {entry : EditLogEntry} (member : entry ∈ entries) (wide : ¬entry.Printable) :
    broadcastPayloadSize entries version < (payloadText version entries).length := by
  have lost := sum_snprintfResult_lt member wide
  rw [broadcastPayloadSize, foldl_snprintfResult,
    snprintfResult_of_le (versionLine_printable version), payloadText, List.length_append,
    List.length_append, Nat.cast_add, Nat.cast_add]
  omega

namespace PayloadBuffer

/-- The buffer holds exactly what was printed. -/
def Full (buffer : PayloadBuffer) (printed : Text) : Prop :=
  buffer.bytes = printed ∧ buffer.off = printed.length

/-- A line for which there is room is printed whole. -/
theorem Full.print {buffer : PayloadBuffer} {printed : Text} (full : buffer.Full printed)
    (size : Int) {line : Text} (short : line.length ≤ intMax)
    (room : (printed.length + line.length : Int) ≤ size) :
    ∃ next, buffer.print size line = some next ∧ next.Full (printed ++ line) := by
  obtain ⟨bytes, off⟩ := buffer
  obtain ⟨bytes_eq, off_eq⟩ := full
  simp only at bytes_eq off_eq
  subst bytes_eq off_eq
  have inside : 0 ≤ (bytes.length : Int) ∧ (bytes.length : Int) ≤ size + 1 := by omega
  have fits : line.length < (size + 1 - bytes.length).toNat := by omega
  refine ⟨_, if_pos inside, ?_, ?_⟩
  · rw [if_pos short, snprintf_of_length_lt fits, Int.toNat_natCast, List.take_length]
  · rw [snprintfResult_of_le short, List.length_append, Nat.cast_add]

theorem Full.foldlM {buffer : PayloadBuffer} {printed : Text} (full : buffer.Full printed)
    (size : Int) {entries : List EditLogEntry}
    (printable : ∀ entry ∈ entries, entry.Printable)
    (room : (printed.length + (entries.flatMap editLine).length : Int) ≤ size) :
    ∃ next, entries.foldlM (fun buffer entry => buffer.print size (editLine entry)) buffer =
        some next ∧ next.Full (printed ++ entries.flatMap editLine) := by
  induction entries generalizing buffer printed with
  | nil => exact ⟨buffer, rfl, by simpa using full⟩
  | cons entry rest ih =>
      rw [List.forall_mem_cons] at printable
      rw [List.flatMap_cons, List.length_append, Nat.cast_add] at room
      obtain ⟨next, done, full'⟩ := full.print size printable.1 (by omega)
      obtain ⟨last, later, full''⟩ := ih full' printable.2
        (by rw [List.length_append, Nat.cast_add]; omega)
      refine ⟨last, ?_, by simpa using full''⟩
      rw [List.foldlM_cons, done]
      exact later

/-- Whatever is printed, no string in the buffer is longer than the buffer has room for. -/
theorem length_print_le {size : Int} {buffer next : PayloadBuffer} {line : Text}
    (short : buffer.bytes.length ≤ size.toNat) (done : buffer.print size line = some next) :
    next.bytes.length ≤ size.toNat := by
  unfold PayloadBuffer.print at done
  split at done
  case isTrue inside =>
      cases done
      rw [List.length_append, List.length_take]
      split
      · rw [snprintf, List.length_take]
        omega
      · rw [List.length_nil]
        omega
  case isFalse => contradiction

theorem length_foldlM_le {size : Int} {entries : List EditLogEntry} {buffer next : PayloadBuffer}
    (short : buffer.bytes.length ≤ size.toNat) (done : entries.foldlM
      (fun buffer entry => buffer.print size (editLine entry)) buffer = some next) :
    next.bytes.length ≤ size.toNat := by
  induction entries generalizing buffer with
  | nil =>
      cases done
      exact short
  | cons entry rest ih =>
      rw [List.foldlM_cons, Option.bind_eq_bind, Option.bind_eq_some_iff] at done
      obtain ⟨middle, first, later⟩ := done
      exact ih (length_print_le short first) later

end PayloadBuffer

/-- The second pass fills the buffer that the first one measured, and nothing is
cut off, if each line is printable. -/
theorem writePayload_full (version : UInt64) {entries : List EditLogEntry}
    (printable : ∀ entry ∈ entries, entry.Printable) :
    writePayload (broadcastPayloadSize entries version) entries version =
      some ⟨payloadText version entries, (payloadText version entries).length⟩ := by
  have size_eq := broadcastPayloadSize_eq version printable
  simp only [payloadText, List.length_append, Nat.cast_add] at size_eq
  have blank : PayloadBuffer.Full ⟨[], 0⟩ [] := ⟨rfl, rfl⟩
  have closing : endLine.length ≤ intMax := by decide
  obtain ⟨header, printed, full⟩ := blank.print (broadcastPayloadSize entries version)
    (versionLine_printable version) (by rw [List.length_nil]; omega)
  rw [List.nil_append] at full
  obtain ⟨body, printed', full'⟩ := full.foldlM (broadcastPayloadSize entries version) printable
    (by omega)
  obtain ⟨last, printed'', bytes_eq, off_eq⟩ := full'.print
    (broadcastPayloadSize entries version) closing (by rw [List.length_append, Nat.cast_add]; omega)
  have last_eq : last = ⟨payloadText version entries, (payloadText version entries).length⟩ := by
    cases last
    cases bytes_eq
    cases off_eq
    rfl
  simp only [writePayload, printed, printed', Option.bind_eq_bind, Option.bind_some]
  rw [printed'', last_eq]

/-- The buffer has no room for more than the first pass counts. -/
theorem length_writePayload_le {size : Int} {entries : List EditLogEntry} {version : UInt64}
    {buffer : PayloadBuffer} (written : writePayload size entries version = some buffer) :
    buffer.bytes.length ≤ size.toNat := by
  simp only [writePayload, Option.bind_eq_bind, Option.bind_eq_some_iff] at written
  obtain ⟨header, first, body, middle, last⟩ := written
  have opened := PayloadBuffer.length_print_le (Nat.zero_le _) first
  exact PayloadBuffer.length_print_le (PayloadBuffer.length_foldlM_le opened middle) last

/-- The payload is printed whole exactly if each line is printable. -/
theorem printPayload_eq_iff (entries : List EditLogEntry) (version : UInt64) :
    printPayload entries version = some (payloadText version entries) ↔
      ∀ entry ∈ entries, entry.Printable := by
  constructor
  · intro whole entry member
    by_contra wide
    obtain ⟨buffer, written, bytes_eq⟩ := Option.map_eq_some_iff.mp whole
    have lost := broadcastPayloadSize_lt version member wide
    have room := length_writePayload_le written
    have closing : endLine.length = 4 := by decide
    rw [bytes_eq] at room
    simp only [payloadText, List.length_append, closing] at lost room
    omega
  · intro printable
    rw [printPayload, writePayload_full version printable]
    rfl

/-! ## With allocations succeeding -/

namespace Server

/-- A server as `server_core_init` leaves it. -/
def fresh (addr : DocAddr) (others : OtherOps addr) : Server where
  core :=
    { doc := emptyDocument addr, currentVersion := 0, pending := .empty, pendingCount := 0 }
  opLists := others.val

/-- The server with an entry appended to its log. -/
def logged (srv : Server) (entry : EditLogEntry) : Server where
  core :=
    { srv.core with
      pending := srv.core.pending.append entry
      pendingCount := srv.core.pendingCount + 1 }
  opLists := srv.opLists

/-- The server after a commit. -/
def commit (srv : Server) : Server where
  core :=
    if 0 < srv.core.pendingCount then
      { doc := srv.store.commit.doc
        currentVersion := srv.store.commit.version
        pending := .empty
        pendingCount := 0 }
    else
      { srv.core with pending := .empty, pendingCount := 0 }
  opLists := if 0 < srv.core.pendingCount then srv.store.commit.opLists else srv.opLists

end Server

theorem run_serverCoreInit (addr : DocAddr) (others : OtherOps addr) :
    Id.run (serverCoreInit addr) = some (Server.fresh addr others).core := by
  simp [serverCoreInit, Server.fresh]

theorem run_serverCoreSubmit (srv : Server) (user commandLine : Text) (role : UserRole) :
    Id.run (serverCoreSubmit srv (some user) role (some commandLine)) =
      let out := Id.run (commandExecute srv.store srv.core.currentVersion role (some commandLine))
      (out.1, (srv.withStore out.2).logged
        ⟨user, withoutTrailingNewline commandLine, out.1⟩) := by
  simp [serverCoreSubmit, appendLogEntry, Server.logged]

theorem run_serverCoreSubmit_null (srv : Server) {user commandLine : Option Text} (role : UserRole)
    (missing : user = none ∨ commandLine = none) :
    Id.run (serverCoreSubmit srv user role commandLine) = (.rejectInvalidCommand, srv) := by
  rcases missing with rfl | rfl
  · rfl
  · cases user <;> rfl

theorem run_serverCoreCommit (srv : Server) :
    Id.run (serverCoreCommit srv) =
      (printPayload srv.log srv.commit.core.currentVersion, srv.commit) := by
  by_cases counted : 0 < srv.core.pendingCount <;>
    simp [serverCoreCommit, applyPending, counted, run_markdownIncrementVersion, Server.commit,
      Server.withStore, Server.log, Store.version]

end CollabMarkdown.Core
