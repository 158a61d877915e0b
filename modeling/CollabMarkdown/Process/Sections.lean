import Mathlib.Data.List.Nodup
import CollabMarkdown.Process.Threads

/-!
# The sections under the mutex

What each section does to a server whose log is empty, as the core leaves it after
every commit, and to a registry whose connections belong to the threads that own
their streams.
-/

namespace CollabMarkdown.Process

open CollabMarkdown.CString
open CollabMarkdown.Command
open CollabMarkdown.Core
open CollabMarkdown.Markdown

/-! ## Sending and broadcasting -/

/-- The bytes of an initial document. -/
def initialDocument (role : UserRole) (version : UInt64) (text : Text) : Text :=
  roleToWireString role ++ [newline] ++ (decimal version.toNat ++ [newline]) ++
    (decimal text.length ++ [newline]) ++ text

theorem run_sendInitialDocument (streams : Streams) (out : StreamId) (role : UserRole)
    (srv : Server) :
    Id.run (sendInitialDocument streams out role srv) =
      (true, Function.update streams out ((streams out).send
        (initialDocument role srv.core.currentVersion srv.store.committedText))) := by
  by_cases text : srv.store.committedText = [] <;>
    simp [sendInitialDocument, initialDocument, text, List.length_pos_iff, OutStream.send,
      OutStream.buffer]

/-- The streams of the registered clients. -/
def System.registered (sys : System) : List StreamId :=
  sys.registry.head.map (·.outStream)

/-- The payload of one line at a server. -/
def linePayload (client : ClientInfo) (srv : Server) (line : Text) : Text :=
  payloadText (srv.core.currentVersion + 1)
    [⟨client.username.val, withoutTrailingNewline line, (srv.plan client.role line).1⟩]

/-- The system after the section for a line. -/
def System.execute (sys : System) (client : ClientInfo) (line : Text) : System :=
  { sys with
    server := sys.server.processed client.username.val client.role line
    streams := fun out =>
      if out ∈ sys.registered then (sys.streams out).send (linePayload client sys.server line)
      else sys.streams out }

/-- What a thread submits can be printed. -/
theorem ClientInfo.printable (client : ClientInfo) {line : Text}
    (short : line.length < commandLineSize) (result : CommandResult) :
    EditLogEntry.Printable
      ⟨client.username.val, withoutTrailingNewline line, result⟩ := by
  have user : client.username.val.length < 128 := client.username.property
  have command := length_withoutTrailingNewline_le line
  rw [commandLineSize] at short
  apply EditLogEntry.printable_of_le
  change client.username.val.length + (withoutTrailingNewline line).length + 31 ≤ 2147483647
  omega

theorem run_executeSection (clients : ThreadId → ClientInfo) {sys : System}
    (coherent : sys.server.Coherent) (settled : sys.server.log = [])
    (distinct : sys.registered.Nodup) (t : ThreadId) {line : Text}
    (short : line.length < commandLineSize) :
    Id.run (executeSection clients sys t line) =
      ((sys.execute (clients t) line).setPhase t .serving,
        .executed t line (sys.server.plan (clients t).role line).1
          (some (linePayload (clients t) sys.server line))) := by
  have printable := (clients t).printable short (sys.server.plan (clients t).role line).1
  simp only [executeSection, Id.run_bind, coherent.run_submit,
    coherent.run_commit_submitted _ _ _ settled printable, clientRegistryBroadcast,
    run_broadcastTo _ _ _ distinct]
  rfl

/-- The system after the section that connects a client whose pid is not
registered. -/
def System.join (sys : System) (client : ClientInfo) (t : ThreadId) : System :=
  let paths := buildFifoPaths client.pid
  { sys with
    registry :=
      ⟨⟨client.pid, client.username.val, client.role, paths.1, paths.2, t⟩ :: sys.registry.head,
        sys.registry.count + 1⟩
    streams := Function.update sys.streams t ((sys.streams t).send
      (initialDocument client.role sys.server.core.currentVersion sys.server.store.committedText)) }

theorem run_connectSection_of_absent (clients : ThreadId → ClientInfo) (sys : System)
    {t : ThreadId} (absent : clientRegistryFind sys.registry (clients t).pid = none) :
    Id.run (connectSection clients sys t) =
      ((sys.join (clients t) t).setPhase t .serving,
        .joined t sys.server.core.currentVersion sys.server.store.committedText) := by
  simp only [connectSection, Id.run_bind, run_sendInitialDocument, Bool.not_true,
    Bool.false_eq_true, if_false, run_clientRegistryAdd, absent, Option.isSome_none]
  rfl

theorem run_connectSection (clients : ThreadId → ClientInfo) (sys : System) (t : ThreadId) :
    (clientRegistryFind sys.registry (clients t).pid = none ∧
      Id.run (connectSection clients sys t) =
        ((sys.join (clients t) t).setPhase t .serving,
          .joined t sys.server.core.currentVersion sys.server.store.committedText)) ∨
      ∃ streams : Streams, (∀ other, other ≠ t → streams other = sys.streams other) ∧
        (streams t).buffered = [] ∧
        Id.run (connectSection clients sys t) =
          ({ sys with streams }.setPhase t .finished, .refused t) := by
  cases found : clientRegistryFind sys.registry (clients t).pid with
  | none => exact .inl ⟨rfl, run_connectSection_of_absent clients sys found⟩
  | some conn =>
      right
      refine ⟨_, ?_, ?_, by
        simp only [connectSection, Id.run_bind, run_sendInitialDocument, Bool.not_true,
          Bool.false_eq_true, if_false, run_clientRegistryAdd, found, Option.isSome_some,
          if_true, Bool.not_false]
        rfl⟩
      · intro other apart
        simp [fclose, apart]
      · simp [fclose, OutStream.drain]

/-! ## The registry -/

/-- The system after the section that removes a client. -/
def System.leave (sys : System) (client : ClientInfo) (t : ThreadId) : System :=
  { sys with
    registry :=
      ⟨sys.registry.head.filter (·.pid != client.pid), sizeSub sys.registry.count 1⟩
    streams := fclose sys.streams t }

/-- The pids in a registry are those of the threads that own the streams, and no
pid occurs twice. -/
structure ClientRegistry.Owned (clients : ThreadId → ClientInfo) (registry : ClientRegistry) :
    Prop where
  pid_eq : ∀ conn ∈ registry.head, conn.pid = (clients conn.outStream).pid
  distinct : (registry.head.map (·.pid)).Nodup

namespace ClientRegistry.Owned

variable {clients : ThreadId → ClientInfo} {sys : System}

theorem registered_nodup (owned : sys.registry.Owned clients) : sys.registered.Nodup := by
  have pids : sys.registry.head.map (·.pid) = sys.registered.map fun t => (clients t).pid := by
    rw [System.registered, List.map_map]
    exact List.map_congr_left owned.pid_eq
  have distinct := owned.distinct
  rw [pids] at distinct
  exact List.Nodup.of_map _ distinct

theorem leaveSection_eq (owned : sys.registry.Owned clients) {t : ThreadId}
    (registered : t ∈ sys.registered) :
    leaveSection clients sys t = ((sys.leave (clients t) t).setPhase t .finished, .left t) := by
  obtain ⟨conn, member, rfl⟩ := List.mem_map.mp registered
  rw [leaveSection, clientRegistryRemove, ← owned.pid_eq conn member,
    unlinkConn_eq owned.distinct member, System.leave, ← owned.pid_eq conn member]

/-- Removing a client takes out its stream alone. -/
theorem mem_registered_leave (owned : sys.registry.Owned clients) {t : ThreadId}
    (registered : t ∈ sys.registered) (other : ThreadId) :
    other ∈ (sys.leave (clients t) t).registered ↔ other ∈ sys.registered ∧ other ≠ t := by
  obtain ⟨conn, member, rfl⟩ := List.mem_map.mp registered
  have apart : ∀ cur ∈ sys.registry.head,
      cur.pid ≠ (clients conn.outStream).pid ↔ cur.outStream ≠ conn.outStream := by
    intro cur inside
    rw [← owned.pid_eq conn member]
    constructor
    · intro differ same
      exact differ (by rw [owned.pid_eq cur inside, owned.pid_eq conn member, same])
    · intro differ same
      exact differ (congrArg _ (List.inj_on_of_nodup_map owned.distinct inside member same))
  simp only [System.leave, System.registered, List.mem_map, List.mem_filter, bne_iff_ne]
  constructor
  · rintro ⟨cur, ⟨inside, differ⟩, rfl⟩
    exact ⟨⟨cur, inside, rfl⟩, (apart cur inside).mp differ⟩
  · rintro ⟨⟨cur, inside, rfl⟩, differ⟩
    exact ⟨cur, ⟨inside, (apart cur inside).mpr differ⟩, rfl⟩

theorem leave (owned : sys.registry.Owned clients) (t : ThreadId) :
    (sys.leave (clients t) t).registry.Owned clients where
  pid_eq conn member := owned.pid_eq conn (List.mem_of_mem_filter member)
  distinct := owned.distinct.sublist (List.filter_sublist.map _)

theorem join (owned : sys.registry.Owned clients) {t : ThreadId}
    (absent : clientRegistryFind sys.registry (clients t).pid = none) :
    (sys.join (clients t) t).registry.Owned clients where
  pid_eq conn member := by
    rcases List.mem_cons.mp member with rfl | older
    · rfl
    · exact owned.pid_eq conn older
  distinct := by
    have fresh : (clients t).pid ∉ sys.registry.head.map (·.pid) := by
      simpa [clientRegistryFind] using absent
    exact List.nodup_cons.mpr ⟨fresh, owned.distinct⟩

end ClientRegistry.Owned

end CollabMarkdown.Process
