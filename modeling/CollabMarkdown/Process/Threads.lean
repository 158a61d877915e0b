import CollabMarkdown.Core.Invariant
import CollabMarkdown.CString.Lines
import CollabMarkdown.Process.Registry

/-!
# Client threads

The server process: a core, a registry, and one thread for each connection.
After login a thread runs through three kinds of sections under the mutex, which
are the steps of the system: it sends the document and registers, executes one
command and broadcasts, or unregisters.  Between them it reads its own stream of
commands, which the client fills at its own pace.  Any thread may take the next
step, so a run of the system is an interleaving of the sections, with allocations and
stream writes that succeed.
-/

namespace CollabMarkdown.Process

open CollabMarkdown.CString
open CollabMarkdown.Command
open CollabMarkdown.Core
open CollabMarkdown.Markdown

/-! ## The state -/

/-- A thread and the server-to-client stream it opens. -/
abbrev ThreadId := StreamId

/-- `USERNAME_BUF_SIZE`. -/
def usernameBufSize : Nat := 128

/-- A string in the `char username[USERNAME_BUF_SIZE]` of a thread. -/
abbrev Username := { name : Text // name.length < usernameBufSize }

/-- A name that runs on fixed inputs use. -/
def Username.ann : Username := ⟨ascii "ann", by decide⟩

/-- Another one. -/
def Username.bob : Username := ⟨ascii "bob", by decide⟩

/-- Who a thread serves, once the client has logged in. -/
structure ClientInfo where
  pid : Pid
  username : Username
  role : UserRole
  deriving DecidableEq, Repr

/-- Where a thread stands: in front of the section that connects it, of a read, of
the section for the line it holds, or of the section that removes it. -/
inductive Phase where
  | connecting
  | serving
  | holding (line : Text)
  | leaving
  | finished
  deriving DecidableEq, Repr

/-- A thread, the bytes its client has sent that it has not read yet, and whether
the client has closed its end. -/
structure ClientThread where
  incoming : Text
  hungUp : Bool
  phase : Phase
  deriving DecidableEq, Repr

/-- The state of the server process.  The mutex is held within a section only, and a
section is one step. -/
structure System where
  server : Server
  registry : ClientRegistry
  streams : Streams
  threads : ThreadId → ClientThread

namespace System

/-- A thread, replaced. -/
def setThread (sys : System) (t : ThreadId) (thread : ClientThread) : System :=
  { sys with threads := Function.update sys.threads t thread }

/-- A thread goes to its next section. -/
def setPhase (sys : System) (t : ThreadId) (phase : Phase) : System :=
  sys.setThread t { sys.threads t with phase }

section

variable (sys : System) (t : ThreadId) (phase : Phase)

@[simp]
theorem phase_setPhase : ((sys.setPhase t phase).threads t).phase = phase := by
  simp [setPhase, setThread]

@[simp]
theorem threads_setPhase_of_ne {other : ThreadId} (apart : other ≠ t) :
    (sys.setPhase t phase).threads other = sys.threads other :=
  Function.update_of_ne apart ..

@[simp]
theorem streams_setPhase : (sys.setPhase t phase).streams = sys.streams :=
  rfl

end

/-- The process before any client has connected. -/
def start (addr : DocAddr) (others : OtherOps addr) : System where
  server := Server.fresh addr others
  registry := clientRegistryInit
  streams := fun _ => .empty
  threads := fun _ => ⟨[], false, .connecting⟩

end System

/-- What a step shows: a connection with the version and text it was sent, a refused
one, a command line read, a command executed with its payload, a removal, or
nothing. -/
inductive ServerEvent where
  | joined (t : ThreadId) (version : UInt64) (text : Text)
  | refused (t : ThreadId)
  | read (t : ThreadId) (line : Text)
  | executed (t : ThreadId) (line : Text) (result : CommandResult) (payload : Option Text)
  | left (t : ThreadId)
  | idle
  deriving DecidableEq, Repr

/-! ## The sections -/

/-- `FIFO_PATH_SIZE`. -/
def fifoPathSize : Nat := 128

/-- What `%d` prints. -/
def decimalInt (n : Int) : Text :=
  if n < 0 then ascii "-" ++ decimal n.natAbs else decimal n.natAbs

/-- `build_fifo_paths`. -/
def buildFifoPaths (clientPid : Pid) : Text × Text :=
  (snprintf fifoPathSize (ascii "FIFO_C2S_" ++ decimalInt clientPid),
    snprintf fifoPathSize (ascii "FIFO_S2C_" ++ decimalInt clientPid))

/-- `role_to_wire_string`. -/
def roleToWireString : UserRole → Text
  | .write => ascii "write"
  | .read => ascii "read"

/-- The lines that end a session. -/
def isQuit (line : Text) : Bool :=
  line = ascii "DISCONNECT\n" || line = ascii "QUIT\n"

/-- The size of `command_line`. -/
def commandLineSize : Nat := 512

variable {m : Type → Type} [Monad m] [MonadMalloc m] [MonadStream m]

/-- `send_initial_document`. -/
def sendInitialDocument (streams : Streams) (out : StreamId) (role : UserRole) (srv : Server) :
    m (Bool × Streams) := do
  match ← serverCoreFlattenDoc srv with
  | none => return (false, streams)
  | some docText =>
      let (_, streams) ← fputs streams out (roleToWireString role ++ [newline])
      let (_, streams) ← fputs streams out (decimal srv.core.currentVersion.toNat ++ [newline])
      let (_, streams) ← fputs streams out (decimal docText.length ++ [newline])
      let (_, streams) ←
        if 0 < docText.length then fputs streams out docText else pure (true, streams)
      let (_, streams) ← fflush streams out
      return (true, streams)

/-- Send the document and register, or close the stream and end. -/
def connectSection (clients : ThreadId → ClientInfo) (sys : System) (t : ThreadId) :
    m (System × ServerEvent) := do
  let client := clients t
  let (sent, streams) ← sendInitialDocument sys.streams t client.role sys.server
  if !sent then
    return ({ sys with streams := fclose streams t }.setPhase t .finished, .refused t)
  else
    let paths := buildFifoPaths client.pid
    let (added, registry, streams) ← clientRegistryAdd sys.registry streams client.pid
      (some client.username.val) client.role (some paths.1) (some paths.2) (some t)
    if !added then
      return ({ sys with registry, streams := fclose streams t }.setPhase t .finished, .refused t)
    else
      return ({ sys with registry, streams }.setPhase t .serving,
        .joined t sys.server.core.currentVersion sys.server.store.committedText)

/-- Submit a command line, commit and broadcast the payload. -/
def executeSection (clients : ThreadId → ClientInfo) (sys : System) (t : ThreadId) (line : Text) :
    m (System × ServerEvent) := do
  let client := clients t
  let (result, server) ←
    serverCoreSubmit sys.server (some client.username.val) client.role (some line)
  let (payload, server) ← serverCoreCommit server
  match payload with
  | none =>
      return ({ sys with server }.setPhase t .serving, .executed t line result none)
  | some payload =>
      let (_, streams) ← clientRegistryBroadcast sys.registry sys.streams payload
      return ({ sys with server, streams }.setPhase t .serving,
        .executed t line result (some payload))

/-- Unregister and end. -/
def leaveSection (clients : ThreadId → ClientInfo) (sys : System) (t : ThreadId) :
    System × ServerEvent :=
  let (_, registry, streams) := clientRegistryRemove sys.registry sys.streams (clients t).pid
  ({ sys with registry, streams }.setPhase t .finished, .left t)

/-- One read of the command loop, which blocks while no line has arrived.  The line
is what `fgets` stored, up to its first NUL. -/
def readCommand (sys : System) (t : ThreadId) : System × ServerEvent :=
  let thread := sys.threads t
  match fgets commandLineSize thread.hungUp thread.incoming with
  | none => (sys, .idle)
  | some (none, incoming) => (sys.setThread t { thread with incoming, phase := .leaving }, .idle)
  | some (some buffer, incoming) =>
      let line := untilNul buffer
      if isQuit line then
        (sys.setThread t { thread with incoming, phase := .leaving }, .idle)
      else
        (sys.setThread t { thread with incoming, phase := .holding line }, .read t line)

/-- A line as the command loop reads it. -/
structure ReadLine (line : Text) : Prop where
  noNul : 0 ∉ line
  length_lt : line.length < commandLineSize
  newline_last : newline ∉ line.dropLast

theorem readLine_of_fgets {closed : Bool} {pending buffer rest : Text}
    (read : fgets commandLineSize closed pending = some (some buffer, rest)) :
    ReadLine (untilNul buffer) where
  noNul member := by simpa using List.mem_takeWhile_imp member
  length_lt :=
    Nat.lt_of_le_of_lt (List.takeWhile_prefix _).length_le (length_fgets_lt (by decide) read)
  newline_last := newline_notMem_dropLast read (List.takeWhile_prefix _)

/-- A read blocks, ends the loop or leaves the thread with a line in hand. -/
theorem readCommand_cases (sys : System) (t : ThreadId) :
    readCommand sys t = (sys, .idle) ∨
      (∃ incoming, readCommand sys t =
        (sys.setThread t { sys.threads t with incoming, phase := .leaving }, .idle)) ∨
      ∃ incoming line, ReadLine line ∧ readCommand sys t =
        (sys.setThread t { sys.threads t with incoming, phase := .holding line },
          .read t line) := by
  match found : fgets commandLineSize (sys.threads t).hungUp (sys.threads t).incoming with
  | none => exact .inl (by simp [readCommand, found])
  | some (none, incoming) => exact .inr (.inl ⟨incoming, by simp [readCommand, found]⟩)
  | some (some buffer, incoming) =>
      by_cases quit : isQuit (untilNul buffer) = true
      · exact .inr (.inl ⟨incoming, by simp [readCommand, found, quit]⟩)
      · exact .inr (.inr ⟨incoming, untilNul buffer, readLine_of_fgets found,
          by simp [readCommand, found, quit]⟩)

/-- The next section of a thread. -/
def threadStep (clients : ThreadId → ClientInfo) (sys : System) (t : ThreadId) :
    m (System × ServerEvent) :=
  match (sys.threads t).phase with
  | .connecting => connectSection clients sys t
  | .serving => pure (readCommand sys t)
  | .holding line => executeSection clients sys t line
  | .leaving => pure (leaveSection clients sys t)
  | .finished => pure (sys, .idle)

/-! ## Runs -/

/-- The next step is one of a thread, or of a client that sends bytes or closes its
end. -/
inductive Action where
  | step (t : ThreadId)
  | send (t : ThreadId) (bytes : Text)
  | hangUp (t : ThreadId)
  deriving DecidableEq, Repr

/-- One action, with allocations and stream writes succeeding. -/
def systemStep (clients : ThreadId → ClientInfo) (sys : System) : Action → System × ServerEvent
  | .step t => Id.run (threadStep clients sys t)
  | .send t bytes =>
      let thread := sys.threads t
      (sys.setThread t { thread with incoming := thread.incoming ++ bytes }, .idle)
  | .hangUp t => (sys.setThread t { sys.threads t with hungUp := true }, .idle)

end CollabMarkdown.Process
