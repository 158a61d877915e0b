import CollabMarkdown.Process.Threads
import CollabMarkdown.Transition.CriticalSections

/-!
# Client threads, statement by statement

The same threads without the assumption that a section is one step.  A thread
waits for the mutex and then takes its statements one at a time: each print and
flush of the initial document, the registration, the submission, the commit, each
write and flush of a broadcast, the removal.  Reading a command and closing the
stream of a refused client happen without the mutex.

Allocations succeed, and so does each print and each flush: no client that is sent
something has gone or stopped reading.
-/

namespace CollabMarkdown.Process

open CollabMarkdown.CString
open CollabMarkdown.Command
open CollabMarkdown.Core
open CollabMarkdown.Markdown
open CollabMarkdown.Transition

/-- The bytes a client has sent that its thread has not read yet, and whether the client
has closed its end. -/
structure Inbox where
  incoming : Text
  hungUp : Bool
  deriving DecidableEq, Repr

/-- What the threads share. -/
structure Shared where
  server : Server
  registry : ClientRegistry
  streams : Streams
  inboxes : ThreadId → Inbox

/-- The next statement of a thread, with the locals that are still needed. -/
inductive Point where
  | connecting
  | flattening
  | printingRole (docText : Text)
  | printingVersion (docText : Text)
  | printingLength (docText : Text)
  | writingText (docText : Text)
  | flushingDocument
  | registering
  | connected
  | refused
  | closing
  | serving
  | holding (line : Text)
  | submitting (line : Text)
  | committing
  | broadcasting (payload : Text)
  | putting (payload : Text) (conns : List ClientConn)
  | flushing (payload : Text) (out : StreamId) (rest : List ClientConn)
  | executed
  | leaving
  | removing
  | left
  | finished
  deriving DecidableEq, Repr

namespace Shared

/-- A write to a stream. -/
def print (sh : Shared) (out : StreamId) (text : Text) : Shared :=
  { sh with streams := (Id.run (fputs sh.streams out text)).2 }

/-- A flush of a stream. -/
def flush (sh : Shared) (out : StreamId) : Shared :=
  { sh with streams := (Id.run (fflush sh.streams out)).2 }

end Shared

section

variable (client : ClientInfo) (t : ThreadId)

/-- `client_registry_add` at the end of the first section. -/
def registerStatement (sh : Shared) : Point × Shared :=
  let paths := buildFifoPaths client.pid
  let added := Id.run (clientRegistryAdd sh.registry sh.streams client.pid
    (some client.username.val) client.role (some paths.1) (some paths.2) (some t))
  (if added.1 then .connected else .refused,
    { sh with registry := added.2.1, streams := added.2.2 })

/-- One read of the command loop. -/
def readStatement (sh : Shared) : Point × Shared :=
  let inbox := sh.inboxes t
  let take (incoming : Text) : Shared :=
    { sh with inboxes := Function.update sh.inboxes t { inbox with incoming } }
  match fgets commandLineSize inbox.hungUp inbox.incoming with
  | none => (.serving, sh)
  | some (none, incoming) => (.leaving, take incoming)
  | some (some buffer, incoming) =>
      let line := untilNul buffer
      (if isQuit line then .leaving else .holding line, take incoming)

/-- `server_core_commit`, and whether there is a payload to broadcast. -/
def commitStatement (sh : Shared) : Point × Shared :=
  let committed := Id.run (serverCoreCommit sh.server)
  (match committed.1 with
    | none => .executed
    | some payload => .broadcasting payload,
    { sh with server := committed.2 })

/-- The write of a broadcast to the next connection. -/
def putStatement (payload : Text) (conns : List ClientConn) (sh : Shared) : Point × Shared :=
  match conns with
  | [] => (.executed, sh)
  | cur :: rest =>
      let put := Id.run (fputs sh.streams cur.outStream payload)
      (if put.1 then .flushing payload cur.outStream rest else .executed,
        { sh with streams := put.2 })

/-- The flush behind it. -/
def flushStatement (payload : Text) (out : StreamId) (rest : List ClientConn) (sh : Shared) :
    Point × Shared :=
  let flushed := Id.run (fflush sh.streams out)
  (if flushed.1 then .putting payload rest else .executed, { sh with streams := flushed.2 })

/-- The statement of a thread at a point. -/
def statement : Point → Instr Point Shared
  | .connecting => .lock .flattening
  | .flattening => .inside fun sh =>
      (match Id.run (serverCoreFlattenDoc sh.server) with
        | none => .refused
        | some docText => .printingRole docText, sh)
  | .printingRole docText => .inside fun sh =>
      (.printingVersion docText, sh.print t (roleToWireString client.role ++ [newline]))
  | .printingVersion docText => .inside fun sh =>
      (.printingLength docText,
        sh.print t (decimal sh.server.core.currentVersion.toNat ++ [newline]))
  | .printingLength docText => .inside fun sh =>
      (if 0 < docText.length then .writingText docText else .flushingDocument,
        sh.print t (decimal docText.length ++ [newline]))
  | .writingText docText => .inside fun sh => (.flushingDocument, sh.print t docText)
  | .flushingDocument => .inside fun sh => (.registering, sh.flush t)
  | .registering => .inside (registerStatement client t)
  | .connected => .unlock .serving
  | .refused => .unlock .closing
  | .closing => .outside fun sh => (.finished, { sh with streams := fclose sh.streams t })
  | .serving => .outside (readStatement t)
  | .holding line => .lock (.submitting line)
  | .submitting line => .inside fun sh =>
      (.committing, { sh with
        server := (Id.run (serverCoreSubmit sh.server (some client.username.val) client.role
          (some line))).2 })
  | .committing => .inside commitStatement
  | .broadcasting payload => .inside fun sh => (.putting payload sh.registry.head, sh)
  | .putting payload conns => .inside (putStatement payload conns)
  | .flushing payload out rest => .inside (flushStatement payload out rest)
  | .executed => .unlock .serving
  | .leaving => .lock .removing
  | .removing => .inside fun sh =>
      let removed := clientRegistryRemove sh.registry sh.streams client.pid
      (.left, { sh with registry := removed.2.1, streams := removed.2.2 })
  | .left => .unlock .finished
  | .finished => .outside fun sh => (.finished, sh)

end

/-! ## The process -/

/-- The thread that takes an action. -/
def Action.actor : Action → Option ThreadId
  | .step t => some t
  | .send _ _ | .hangUp _ => none

/-- What clients do. -/
def Action.world (sh : Shared) : Action → Shared
  | .step _ => sh
  | .send t bytes =>
      let inbox := sh.inboxes t
      { sh with
        inboxes := Function.update sh.inboxes t { inbox with incoming := inbox.incoming ++ bytes } }
  | .hangUp t =>
      { sh with inboxes := Function.update sh.inboxes t { sh.inboxes t with hungUp := true } }

/-- The threads of the server as programs around its mutex. -/
def serverThreads (clients : ThreadId → ClientInfo) :
    LockedProgram ThreadId Point Shared Action where
  instr t := statement (clients t) t
  actor := Action.actor
  world action sh := action.world sh

/-- The process before any client has connected. -/
def statementsStart (addr : DocAddr) (others : OtherOps addr) :
    LockedState ThreadId Point Shared where
  shared := ⟨Server.fresh addr others, clientRegistryInit, fun _ => .empty, fun _ => ⟨[], false⟩⟩
  points _ := .connecting
  holder := none

/-- The process after a schedule of single statements. -/
def statementsReached (clients : ThreadId → ClientInfo) (addr : DocAddr) (others : OtherOps addr)
    (schedule : List Action) : LockedState ThreadId Point Shared :=
  schedule.foldl (serverThreads clients).step (statementsStart addr others)

/-- The run of whole sections that a schedule of single statements comes to. -/
def sections (clients : ThreadId → ClientInfo) (addr : DocAddr) (others : OtherOps addr)
    (schedule : List Action) : List Action :=
  (serverThreads clients).serialized (statementsStart addr others) schedule

end CollabMarkdown.Process
