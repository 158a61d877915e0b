import CollabMarkdown.Posix.Fifos
import CollabMarkdown.Process.Accept
import CollabMarkdown.Process.Threads

/-!
# Connecting

A client blocks the signal that will tell it that its FIFOs are there, asks the server
with another one, and waits.  The main thread starts a thread for it, which makes the
FIFOs, signals the client, and opens its ends of them while the client opens the other
ones.  A thread removes its FIFOs when it ends, however it ends.

The parties are the main thread and its signal handler, any number of clients and the
threads that serve them; each step is one system call of one party, and a call that can
fail does so or not.  An `unlink` leaves no path behind, and a registration that fails
closes the stream once: what the second `fclose` does is in `Process.ThreadLife`.
-/

namespace CollabMarkdown.Process

open CollabMarkdown.CString
open CollabMarkdown.Posix

/-! ## The parties -/

/-- The pid of a client process.  No two processes of a run have the same. -/
abbrev ClientPid : Type :=
  { pid : Pid // 0 < pid ∧ pid < 2 ^ 31 }

/-- Those who open FIFOs: a client, or the thread that serves one. -/
inductive Party where
  | client (pid : Pid)
  | thread (t : ThreadId)
  deriving DecidableEq, Repr

/-- The call that a client stands in front of, or waits in, with the FIFOs it has opened.
A signal that it has not blocked ends it. -/
inductive ClientPoint where
  | blocking
  | asking
  | waiting
  | openingC2s
  | meetingC2s (c2s : Fifo) (ticket : Nat)
  | openingS2c (c2s : Fifo)
  | meetingS2c (c2s s2c : Fifo) (ticket : Nat)
  | connected (c2s s2c : Fifo)
  | gone
  | killed
  deriving DecidableEq, Repr

/-- What a thread has left to undo when it ends. -/
inductive Teardown where
  | closeC2s (c2s : Fifo)
  | closeS2c (s2c : Fifo)
  | unlinkC2s
  | unlinkS2c
  deriving DecidableEq, Repr

/-- The call that a thread of `client_thread_main` stands in front of, or waits in, with the
FIFOs it has opened. -/
inductive ThreadPoint where
  | unlinkingC2s
  | unlinkingS2c
  | makingC2s
  | makingS2c
  | signalling
  | openingC2s
  | meetingC2s (c2s : Fifo) (ticket : Nat)
  | openingS2c (c2s : Fifo)
  | meetingS2c (c2s s2c : Fifo) (ticket : Nat)
  | serving (c2s s2c : Fifo)
  | ending (rest : List Teardown)
  deriving DecidableEq, Repr

/-- A thread and the client it was started for. -/
structure Connection where
  clientPid : Pid
  point : ThreadPoint
  deriving DecidableEq, Repr

/-- The server process, the clients and the files: the main thread, the requests sent and
not delivered, the FIFOs, where each client stands and whether it has been signalled, and
the threads started so far. -/
structure Connections where
  acceptor : Acceptor
  queued : List ClientPid
  files : Fifos Text Party
  clients : Pid → ClientPoint
  ready : Pid → Bool
  threads : ThreadId → Option Connection
  started : Nat

/-- The path that the client writes to. -/
def c2sPath (pid : Pid) : Text :=
  (buildFifoPaths pid).1

/-- The path that the client reads from. -/
def s2cPath (pid : Pid) : Text :=
  (buildFifoPaths pid).2

namespace Connections

/-- The server once it has installed its handler, with what earlier runs have left. -/
def start (left : List Text) : Connections where
  acceptor := .start
  queued := []
  files := .ofPaths left
  clients _ := .blocking
  ready _ := false
  threads _ := none
  started := 0

/-- A client goes to another point. -/
def setClient (s : Connections) (pid : Pid) (point : ClientPoint) : Connections :=
  { s with clients := Function.update s.clients pid point }

/-- A thread goes to another point. -/
def setThread (s : Connections) (t : ThreadId) (pid : Pid) (point : ThreadPoint) : Connections :=
  { s with threads := Function.update s.threads t (some ⟨pid, point⟩) }

/-! ## A client -/

/-- The client exits. -/
def leave (s : Connections) (pid : Pid) : Connections :=
  { s with files := s.files.releaseAll (.client pid) }.setClient pid .gone

/-- The client opens an end, if the path is there. -/
def clientOpen (s : Connections) (pid : Pid) (path : Text) (side : Side)
    (next : Fifo → Nat → ClientPoint) (succeeds : Bool) : Connections :=
  match succeeds, s.files.entry path with
  | true, some fifo =>
      { s with files := s.files.arrive fifo side (.client pid) }.setClient pid
        (next fifo (s.files.ticket fifo side))
  | _, _ => s.leave pid

/-- One call of a client. -/
def clientStep (s : Connections) (pid : ClientPid) (succeeds : Bool) : Connections :=
  match s.clients pid with
  | .blocking => if succeeds then s.setClient pid .asking else s.leave pid
  | .asking =>
      if succeeds then { s with queued := s.queued ++ [pid] }.setClient pid .waiting
      else s.leave pid
  | .waiting =>
      if !succeeds then s.leave pid
      else if s.ready pid then
        { s with ready := Function.update s.ready pid false }.setClient pid .openingC2s
      else s
  | .openingC2s => s.clientOpen pid (c2sPath pid) .write .meetingC2s succeeds
  | .meetingC2s c2s ticket =>
      if !succeeds then s.leave pid
      else if s.files.met c2s .write ticket then s.setClient pid (.openingS2c c2s)
      else s
  | .openingS2c c2s => s.clientOpen pid (s2cPath pid) .read (.meetingS2c c2s) succeeds
  | .meetingS2c c2s s2c ticket =>
      if !succeeds then s.leave pid
      else if s.files.met s2c .read ticket then s.setClient pid (.connected c2s s2c)
      else s
  | .connected _ _ => s.leave pid
  | .gone | .killed => s

/-! ## A thread -/

/-- `kill(client_pid, CLIENT_READY_SIGNAL)`.  The signal ends a client that has not blocked
it. -/
def signalReady (s : Connections) (pid : Pid) : Connections :=
  match s.clients pid with
  | .blocking => { s with files := s.files.releaseAll (.client pid) }.setClient pid .killed
  | .gone | .killed => s
  | _ => { s with ready := Function.update s.ready pid true }

/-- `make_fifo_pair` makes one of its FIFOs. -/
def threadMake (s : Connections) (t : ThreadId) (pid : Pid) (path : Text) (next : ThreadPoint)
    (otherwise : List Teardown) (succeeds : Bool) : Connections :=
  match succeeds, s.files.mkfifo path with
  | true, some files => { s with files }.setThread t pid next
  | _, _ => s.setThread t pid (.ending otherwise)

/-- The thread opens an end, if the path is there. -/
def threadOpen (s : Connections) (t : ThreadId) (pid : Pid) (path : Text) (side : Side)
    (next : Fifo → Nat → ThreadPoint) (otherwise : List Teardown) (succeeds : Bool) :
    Connections :=
  match succeeds, s.files.entry path with
  | true, some fifo =>
      { s with files := s.files.arrive fifo side (.thread t) }.setThread t pid
        (next fifo (s.files.ticket fifo side))
  | _, _ => s.setThread t pid (.ending otherwise)

/-- One thing undone. -/
def undo (files : Fifos Text Party) (t : ThreadId) (pid : Pid) : Teardown → Fifos Text Party
  | .closeC2s c2s => files.release c2s .read (.thread t)
  | .closeS2c s2c => files.release s2c .write (.thread t)
  | .unlinkC2s => files.unlink (c2sPath pid)
  | .unlinkS2c => files.unlink (s2cPath pid)

/-- `cleanup_fifo_pair`. -/
def cleanupFifoPair : List Teardown :=
  [.unlinkC2s, .unlinkS2c]

/-- One call of a thread.  A thread that serves its client ends by removing it from the
registry, or, if it has not registered it, by closing the streams first. -/
def threadCall (s : Connections) (t : ThreadId) (succeeds : Bool) : Connections :=
  match s.threads t with
  | none => s
  | some ⟨pid, point⟩ =>
      match point with
      | .unlinkingC2s =>
          { s with files := s.files.unlink (c2sPath pid) }.setThread t pid .unlinkingS2c
      | .unlinkingS2c =>
          { s with files := s.files.unlink (s2cPath pid) }.setThread t pid .makingC2s
      | .makingC2s => s.threadMake t pid (c2sPath pid) .makingS2c [] succeeds
      | .makingS2c => s.threadMake t pid (s2cPath pid) .signalling [.unlinkC2s] succeeds
      | .signalling =>
          if succeeds then (s.signalReady pid).setThread t pid .openingC2s
          else s.setThread t pid (.ending cleanupFifoPair)
      | .openingC2s =>
          s.threadOpen t pid (c2sPath pid) .read .meetingC2s cleanupFifoPair succeeds
      | .meetingC2s c2s ticket =>
          if !succeeds then
            { s with files := s.files.release c2s .read (.thread t) }.setThread t pid
              (.ending cleanupFifoPair)
          else if s.files.met c2s .read ticket then s.setThread t pid (.openingS2c c2s)
          else s
      | .openingS2c c2s =>
          s.threadOpen t pid (s2cPath pid) .write (.meetingS2c c2s)
            (.closeC2s c2s :: cleanupFifoPair) succeeds
      | .meetingS2c c2s s2c ticket =>
          if !succeeds then
            { s with files := s.files.release s2c .write (.thread t) }.setThread t pid
              (.ending (.closeC2s c2s :: cleanupFifoPair))
          else if s.files.met s2c .write ticket then s.setThread t pid (.serving c2s s2c)
          else s
      | .serving c2s s2c =>
          if succeeds then
            s.setThread t pid (.ending (cleanupFifoPair ++ [.closeS2c s2c, .closeC2s c2s]))
          else
            s.setThread t pid (.ending ([.closeC2s c2s, .closeS2c s2c] ++ cleanupFifoPair))
      | .ending [] => s
      | .ending (first :: rest) =>
          { s with files := undo s.files t pid first }.setThread t pid (.ending rest)

end Connections

/-! ## Steps -/

/-- The next step: a call of a client, the handler for a request that has been sent, a
statement of the main thread, or a call of a thread.  The handler runs on the main thread,
which it wakes, or on another one. -/
inductive ConnectAction where
  | client (pid : ClientPid) (succeeds : Bool)
  | deliver (pid : ClientPid) (onMain : Bool)
  | main (succeeds : Bool)
  | thread (t : ThreadId) (succeeds : Bool)
  deriving DecidableEq

/-- A call of a client, a delivery of the signal, a statement of the main thread, or a
call of a client thread. -/
def connectStep (s : Connections) : ConnectAction → Connections
  | .client pid succeeds => s.clientStep pid succeeds
  | .deliver pid onMain =>
      if pid ∈ s.queued then
        let handled := s.acceptor.connectSignalHandler ⟨pid, pid.property.1⟩
        let statement := if onMain then handled.statement else s.acceptor.statement
        { s with acceptor := { handled with statement }, queued := s.queued.erase pid }
      else
        s
  | .main succeeds =>
      let (acceptor, event) := s.acceptor.mainStep succeeds
      match event with
      | .started pid =>
          { s with
            acceptor
            threads := Function.update s.threads s.started (some ⟨pid, .unlinkingC2s⟩)
            started := s.started + 1 }
      | .delivered _ | .taken _ | .idle => { s with acceptor }
  | .thread t succeeds => s.threadCall t succeeds

/-- The state after some steps, with what earlier runs have left. -/
def connectionsReached (left : List Text) (actions : List ConnectAction) : Connections :=
  actions.foldl connectStep (.start left)

end CollabMarkdown.Process
