import Mathlib.Logic.Function.Basic
import CollabMarkdown.Command.Execute

/-!
# The client registry

The registry is a linked list of connections, the newest first, with a count of
its own.  A connection owns its output stream from a successful add on: removing
it closes the stream.  A broadcast writes and flushes the streams in list order
and stops at the first failure.

Whether a write or a flush succeeds is up to the monad, as for allocation.  The
FIFO files that a removal unlinks are left out.
-/

namespace CollabMarkdown.Process

open CollabMarkdown.CString
open CollabMarkdown.Command

/-! ## Streams -/

/-- `FILE *`, other than NULL. -/
abbrev StreamId := Nat

/-- An output stream: the bytes in its buffer, those that have left it, and how
often it was closed. -/
structure OutStream where
  buffered : Text
  written : Text
  closes : Nat
  deriving DecidableEq, Repr

/-- The output streams of the server. -/
abbrev Streams := StreamId → OutStream

/-- Whether a write to a stream and a flush of it succeed. -/
class MonadStream (m : Type → Type) where
  writes : StreamId → Text → m Bool
  flushes : StreamId → m Bool

/-- A process whose clients all keep reading. -/
instance : MonadStream Id where
  writes _ _ := pure true
  flushes _ := pure true

namespace OutStream

/-- A stream that nothing was written to. -/
def empty : OutStream :=
  ⟨[], [], 0⟩

/-- The stream with more bytes in its buffer. -/
def buffer (stream : OutStream) (text : Text) : OutStream :=
  { stream with buffered := stream.buffered ++ text }

/-- The bytes in the buffer leave it for the client. -/
def drain (stream : OutStream) : OutStream :=
  { stream with buffered := [], written := stream.written ++ stream.buffered }

/-- The bytes in the buffer are lost. -/
def discard (stream : OutStream) : OutStream :=
  { stream with buffered := [] }

end OutStream

variable {m : Type → Type} [Monad m] [MonadStream m]

/-- `fputs`, and likewise `fprintf` and `fwrite`, to a stream. -/
def fputs (streams : Streams) (out : StreamId) (text : Text) : m (Bool × Streams) := do
  if ← MonadStream.writes out text then
    return (true, Function.update streams out ((streams out).buffer text))
  else
    return (false, streams)

/-- `fflush`.  One that fails drops what it could not write. -/
def fflush (streams : Streams) (out : StreamId) : m (Bool × Streams) := do
  if ← MonadStream.flushes out then
    return (true, Function.update streams out (streams out).drain)
  else
    return (false, Function.update streams out (streams out).discard)

/-- `fclose`, whose flush succeeds. -/
def fclose (streams : Streams) (out : StreamId) : Streams :=
  Function.update streams out
    { (streams out).drain with closes := (streams out).closes + 1 }

/-! ## The registry -/

/-- `pid_t`. -/
abbrev Pid := Int

/-- `client_conn`, without its link to the next one. -/
structure ClientConn where
  pid : Pid
  username : Text
  role : UserRole
  fifoC2sPath : Text
  fifoS2cPath : Text
  outStream : StreamId
  deriving DecidableEq, Repr

/-- `client_registry`. -/
structure ClientRegistry where
  head : List ClientConn
  count : Nat
  deriving DecidableEq, Repr

/-- `sizeof(client_conn)`. -/
def sizeofClientConn : Nat := 56

/-- `client_registry_init`, once the allocation has succeeded. -/
def clientRegistryInit : ClientRegistry :=
  ⟨[], 0⟩

/-- `client_registry_find`. -/
def clientRegistryFind (registry : ClientRegistry) (pid : Pid) : Option ClientConn :=
  registry.head.find? (·.pid == pid)

/-- The result is whether the source returns 0.  Absent arguments are NULL.  When a
copy fails, the half-built connection is freed with the stream it already
holds. -/
def clientRegistryAdd [MonadMalloc m] (registry : ClientRegistry) (streams : Streams) (pid : Pid)
    (username : Option Text) (role : UserRole) (fifoC2sPath fifoS2cPath : Option Text)
    (outStream : Option StreamId) : m (Bool × ClientRegistry × Streams) := do
  match username, fifoC2sPath, fifoS2cPath, outStream with
  | some username, some fifoC2sPath, some fifoS2cPath, some outStream =>
      if (clientRegistryFind registry pid).isSome then
        return (false, registry, streams)
      else if ← malloc sizeofClientConn then
        let usernameCopy ← strdup (some username)
        let c2sCopy ← strdup (some fifoC2sPath)
        let s2cCopy ← strdup (some fifoS2cPath)
        match usernameCopy, c2sCopy, s2cCopy with
        | some username, some fifoC2sPath, some fifoS2cPath =>
            let client := { pid, username, role, fifoC2sPath, fifoS2cPath, outStream }
            return (true, ⟨client :: registry.head, registry.count + 1⟩, streams)
        | _, _, _ => return (false, registry, fclose streams outStream)
      else
        return (false, registry, streams)
  | _, _, _, _ => return (false, registry, streams)

/-- Unlink the first connection of a pid. -/
def unlinkConn (pid : Pid) : List ClientConn → Option (ClientConn × List ClientConn)
  | [] => none
  | cur :: rest =>
      if cur.pid == pid then
        some (cur, rest)
      else
        (unlinkConn pid rest).map fun (found, rest) => (found, cur :: rest)

/-- `client_registry_remove`. -/
def clientRegistryRemove (registry : ClientRegistry) (streams : Streams) (pid : Pid) :
    Bool × ClientRegistry × Streams :=
  match unlinkConn pid registry.head with
  | none => (false, registry, streams)
  | some (cur, rest) => (true, ⟨rest, sizeSub registry.count 1⟩, fclose streams cur.outStream)

/-- The loop of a broadcast. -/
def broadcastTo (payload : Text) : List ClientConn → Streams → m (Bool × Streams)
  | [], streams => return (true, streams)
  | cur :: rest, streams => do
      let (put, streams) ← fputs streams cur.outStream payload
      if !put then
        return (false, streams)
      else
        let (flushed, streams) ← fflush streams cur.outStream
        if !flushed then
          return (false, streams)
        else
          broadcastTo payload rest streams

/-- `client_registry_broadcast`. -/
def clientRegistryBroadcast (registry : ClientRegistry) (streams : Streams) (payload : Text) :
    m (Bool × Streams) :=
  broadcastTo payload registry.head streams

/-! ## With writes and allocations succeeding -/

@[simp]
theorem run_fputs (streams : Streams) (out : StreamId) (text : Text) :
    Id.run (fputs streams out text) =
      (true, Function.update streams out ((streams out).buffer text)) :=
  rfl

@[simp]
theorem run_fflush (streams : Streams) (out : StreamId) :
    Id.run (fflush streams out) = (true, Function.update streams out (streams out).drain) :=
  rfl

namespace OutStream

/-- The stream after a text was written to it and flushed. -/
def send (stream : OutStream) (text : Text) : OutStream :=
  (stream.buffer text).drain

@[simp]
theorem buffered_send (stream : OutStream) (text : Text) : (stream.send text).buffered = [] :=
  rfl

theorem written_send {stream : OutStream} (drained : stream.buffered = []) (text : Text) :
    (stream.send text).written = stream.written ++ text := by
  simp [send, buffer, drain, drained]

end OutStream

/-- A broadcast sends the payload once to the stream of each connection. -/
theorem run_broadcastTo (payload : Text) (conns : List ClientConn) (streams : Streams)
    (distinct : (conns.map (·.outStream)).Nodup) :
    Id.run (broadcastTo payload conns streams) =
      (true, fun out =>
        if out ∈ conns.map (·.outStream) then (streams out).send payload else streams out) := by
  induction conns generalizing streams with
  | nil => simp [broadcastTo]
  | cons cur rest ih =>
      obtain ⟨fresh, later⟩ := List.nodup_cons.mp distinct
      have sent : Function.update
          (Function.update streams cur.outStream ((streams cur.outStream).buffer payload))
          cur.outStream ((streams cur.outStream).buffer payload).drain =
            Function.update streams cur.outStream ((streams cur.outStream).send payload) := by
        rw [Function.update_idem]
        rfl
      simp only [broadcastTo, Id.run_bind, run_fputs, run_fflush, Function.update_self, sent,
        Bool.not_true, Bool.false_eq_true, if_false, ih _ later]
      congr 1
      funext out
      by_cases here : out = cur.outStream
      · subst here
        simp [fresh]
      · simp [here]

/-- Registration refuses a pid that is registered already. -/
theorem run_clientRegistryAdd (registry : ClientRegistry) (streams : Streams) (pid : Pid)
    (username : Text) (role : UserRole) (fifoC2sPath fifoS2cPath : Text) (outStream : StreamId) :
    Id.run (clientRegistryAdd registry streams pid (some username) role (some fifoC2sPath)
        (some fifoS2cPath) (some outStream)) =
      if (clientRegistryFind registry pid).isSome then
        (false, registry, streams)
      else
        (true, ⟨⟨pid, username, role, fifoC2sPath, fifoS2cPath, outStream⟩ :: registry.head,
          registry.count + 1⟩, streams) := by
  by_cases registered : (clientRegistryFind registry pid).isSome <;>
    simp [clientRegistryAdd, registered]

/-- With distinct pids, unlinking takes out the one connection of a pid. -/
theorem unlinkConn_eq {conns : List ClientConn} (distinct : (conns.map (·.pid)).Nodup)
    {conn : ClientConn} (member : conn ∈ conns) :
    unlinkConn conn.pid conns = some (conn, conns.filter (·.pid != conn.pid)) := by
  induction conns with
  | nil => exact absurd member List.not_mem_nil
  | cons cur rest ih =>
      obtain ⟨fresh, later⟩ := List.nodup_cons.mp distinct
      rcases List.mem_cons.mp member with rfl | deeper
      · have others : rest.filter (·.pid != conn.pid) = rest := by
          apply List.filter_eq_self.mpr
          intro other inside
          have apart : other.pid ≠ conn.pid := fun same =>
            fresh (List.mem_map.mpr ⟨other, inside, same⟩)
          simpa using apart
        simp [unlinkConn, others]
      · have apart : cur.pid ≠ conn.pid := fun same =>
          fresh (List.mem_map.mpr ⟨conn, deeper, same.symm⟩)
        simp [unlinkConn, apart, ih later deeper]

end CollabMarkdown.Process
