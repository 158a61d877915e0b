import CollabMarkdown.Process.Sections
import CollabMarkdown.Transition.Run

/-!
# Delivery

The executed commands of a run form one totally ordered list, each with its
payload.  A client that joins after `n` of them holds version `n`, and its stream
is the initial document followed by the payloads from place `n` on, up to its
removal.  The `Ledger` reads this list and the stay of each client off the events
of a run; the invariant ties it to the registry, the version and the streams.
-/

namespace CollabMarkdown.Process

open CollabMarkdown.CString
open CollabMarkdown.Command
open CollabMarkdown.Core
open CollabMarkdown.Markdown
open CollabMarkdown.Transition

/-! ## The ledger -/

/-- A command in the total order. -/
structure Execution where
  thread : ThreadId
  line : Text
  result : CommandResult
  payload : Option Text
  deriving DecidableEq, Repr

/-- The stay of a client: the initial document it was sent, and how many commands
had been executed when it joined and when it left. -/
structure Subscription where
  version : UInt64
  text : Text
  joinedAt : Nat
  leftAt : Option Nat
  deriving DecidableEq, Repr

/-- The commands executed so far, who has been connected when, and the lines that each
thread has read. -/
structure Ledger where
  executions : List Execution
  subscriptions : ThreadId → Option Subscription
  reads : ThreadId → List Text

namespace Ledger

/-- Before the first event. -/
def empty : Ledger :=
  ⟨[], fun _ => none, fun _ => []⟩

/-- The ledger after one more event. -/
def record (ledger : Ledger) : ServerEvent → Ledger
  | .joined t version text =>
      let stay := ⟨version, text, ledger.executions.length, none⟩
      { ledger with subscriptions := Function.update ledger.subscriptions t (some stay) }
  | .read t line =>
      { ledger with reads := Function.update ledger.reads t (ledger.reads t ++ [line]) }
  | .executed t line result payload =>
      { ledger with executions := ledger.executions ++ [⟨t, line, result, payload⟩] }
  | .left t =>
      let stay := (ledger.subscriptions t).map fun stay =>
        { stay with leftAt := some ledger.executions.length }
      { ledger with subscriptions := Function.update ledger.subscriptions t stay }
  | .refused _ | .idle => ledger

/-- The ledger of a run. -/
def ofEvents (events : List ServerEvent) : Ledger :=
  events.foldl record empty

end Ledger

/-- How many commands had been executed when a stay ended, or have been by now. -/
def Subscription.endsAt (stay : Subscription) (executions : List Execution) : Nat :=
  stay.leftAt.getD executions.length

/-- What was broadcast for the commands executed during a stay. -/
def Subscription.payloads (stay : Subscription) (executions : List Execution) : List Text :=
  ((executions.take (stay.endsAt executions)).drop stay.joinedAt).map (·.payload.getD [])

/-- The executed lines of a thread. -/
def linesOf (t : ThreadId) (executions : List Execution) : List Text :=
  (executions.filter (·.thread = t)).map (·.line)

/-- The line read but not executed yet. -/
def Phase.inHand : Phase → List Text
  | .holding line => [line]
  | .connecting | .serving | .leaving | .finished => []

/-- The log entry of an executed command. -/
def Execution.entry (clients : ThreadId → ClientInfo) (execution : Execution) : EditLogEntry :=
  ⟨(clients execution.thread).username.val, withoutTrailingNewline execution.line,
    execution.result⟩

/-- The thread stands between the section that registered it and the one that
removes it. -/
def Phase.connected : Phase → Bool
  | .connecting | .finished => false
  | .serving | .holding _ | .leaving => true

/-! ## Stays -/

namespace Subscription

/-- A stream carries the initial document of a stay and then the payloads of the
commands executed during it. -/
structure Served (stay : Subscription) (executions : List Execution) (role : UserRole)
    (written : Text) : Prop where
  version_eq : stay.version = UInt64.ofNat stay.joinedAt
  joinedAt_le : stay.joinedAt ≤ stay.endsAt executions
  endsAt_le : stay.endsAt executions ≤ executions.length
  written_eq : written =
    initialDocument role stay.version stay.text ++ (stay.payloads executions).flatten

variable {stay : Subscription} {executions : List Execution} {role : UserRole} {written : Text}

theorem endsAt_ongoing (ongoing : stay.leftAt = none) :
    stay.endsAt executions = executions.length := by
  rw [endsAt, ongoing, Option.getD_none]

theorem endsAt_ended {n : Nat} (ended : stay.leftAt = some n) : stay.endsAt executions = n := by
  rw [endsAt, ended, Option.getD_some]

/-- A stay that goes on receives the next payload. -/
theorem Served.extend (served : stay.Served executions role written) (ongoing : stay.leftAt = none)
    {execution : Execution} {payload : Text} (carried : execution.payload = some payload) :
    stay.Served (executions ++ [execution]) role (written ++ payload) := by
  have begun := served.joinedAt_le
  rw [endsAt_ongoing ongoing] at begun
  refine ⟨served.version_eq, ?_, ?_, ?_⟩
  · rw [endsAt_ongoing ongoing, List.length_append]
    omega
  · rw [endsAt_ongoing ongoing]
  · rw [served.written_eq, payloads, payloads, endsAt_ongoing ongoing, endsAt_ongoing ongoing,
      List.take_length, List.take_length, List.drop_append_of_le_length begun]
    simp [carried]

/-- A stay that has ended receives nothing more. -/
theorem Served.over (served : stay.Served executions role written) {n : Nat}
    (ended : stay.leftAt = some n) (later : List Execution) :
    stay.Served (executions ++ later) role written := by
  obtain ⟨version_eq, joinedAt_le, endsAt_le, written_eq⟩ := served
  rw [payloads] at written_eq
  rw [endsAt_ended ended] at joinedAt_le endsAt_le written_eq
  refine ⟨version_eq, ?_, ?_, ?_⟩
  · rwa [endsAt_ended ended]
  · rw [endsAt_ended ended, List.length_append]
    omega
  · rw [payloads, endsAt_ended ended, List.take_append_of_le_length endsAt_le, written_eq]

/-- A stay starts with the initial document alone. -/
theorem served_joined (executions : List Execution) (role : UserRole) (text : Text) :
    Served ⟨UInt64.ofNat executions.length, text, executions.length, none⟩ executions role
      (initialDocument role (UInt64.ofNat executions.length) text) := by
  constructor <;> simp [payloads, endsAt]

/-- Ending a stay now changes nothing in what it received. -/
theorem Served.leave (served : stay.Served executions role written) (ongoing : stay.leftAt = none) :
    Served { stay with leftAt := some executions.length } executions role written := by
  obtain ⟨version_eq, joinedAt_le, endsAt_le, written_eq⟩ := served
  rw [payloads] at written_eq
  rw [endsAt_ongoing ongoing] at joinedAt_le endsAt_le written_eq
  exact ⟨version_eq, joinedAt_le, endsAt_le, written_eq⟩

theorem length_payloads (bound : stay.endsAt executions ≤ executions.length) :
    (stay.payloads executions).length = stay.endsAt executions - stay.joinedAt := by
  rw [payloads, List.length_map, List.length_drop, List.length_take, min_eq_left bound]

theorem getElem?_payloads {k : Nat} (during : stay.joinedAt + k < stay.endsAt executions) :
    (stay.payloads executions)[k]? = executions[stay.joinedAt + k]?.map (·.payload.getD []) := by
  rw [payloads, List.getElem?_map, List.getElem?_drop, List.getElem?_take_of_lt during]

end Subscription

theorem linesOf_concat (t : ThreadId) (executions : List Execution) (execution : Execution) :
    linesOf t (executions ++ [execution]) =
      if execution.thread = t then linesOf t executions ++ [execution.line]
      else linesOf t executions := by
  by_cases own : execution.thread = t <;> simp [linesOf, own]

/-! ## The invariant -/

/-- The invariant of one thread. -/
structure Tracked (clients : ThreadId → ClientInfo) (ledger : Ledger) (sys : System)
    (t : ThreadId) : Prop where
  drained : (sys.streams t).buffered = []
  lines_eq : linesOf t ledger.executions ++ (sys.threads t).phase.inHand = ledger.reads t
  short : ∀ line ∈ (sys.threads t).phase.inHand, line.length < commandLineSize
  untouched : (sys.threads t).phase = .connecting →
    ledger.subscriptions t = none ∧ (sys.streams t).written = []
  registered_iff : t ∈ sys.registered ↔ (sys.threads t).phase.connected = true
  subscribed_iff : (sys.threads t).phase.connected = true ↔
    ∃ stay, ledger.subscriptions t = some stay ∧ stay.leftAt = none
  served : ∀ stay, ledger.subscriptions t = some stay →
    stay.Served ledger.executions (clients t).role (sys.streams t).written

/-- The invariant of the system. -/
structure Delivered (clients : ThreadId → ClientInfo) (ledger : Ledger) (sys : System) :
    Prop where
  coherent : sys.server.Coherent
  settled : sys.server.log = []
  version_eq : sys.server.core.currentVersion = UInt64.ofNat ledger.executions.length
  numbered : ∀ n execution, ledger.executions[n]? = some execution →
    execution.payload = some (payloadText (UInt64.ofNat (n + 1)) [execution.entry clients])
  owned : sys.registry.Owned clients
  tracked : ∀ t, Tracked clients ledger sys t

theorem delivered_start (clients : ThreadId → ClientInfo) (addr : DocAddr)
    (others : OtherOps addr) : Delivered clients Ledger.empty (System.start addr others) where
  coherent := Server.coherent_fresh addr others
  settled := rfl
  version_eq := rfl
  numbered n execution found := by simp [Ledger.empty] at found
  owned := ⟨fun _ member => absurd member List.not_mem_nil, List.nodup_nil⟩
  tracked t := by
    constructor <;>
      simp [System.start, Ledger.empty, OutStream.empty, linesOf, Phase.inHand,
        Phase.connected, System.registered, clientRegistryInit]

/-! ## Steps of one thread -/

namespace Tracked

variable {clients : ThreadId → ClientInfo} {ledger ledger' : Ledger} {sys sys' : System}
  {t : ThreadId}

/-- A step that leaves alone what concerns a thread keeps its invariant. -/
theorem frame (tracked : Tracked clients ledger sys t)
    (phase_eq : (sys'.threads t).phase = (sys.threads t).phase)
    (stream_eq : sys'.streams t = sys.streams t)
    (registered : t ∈ sys'.registered ↔ t ∈ sys.registered)
    (executions_eq : ledger'.executions = ledger.executions)
    (subscription_eq : ledger'.subscriptions t = ledger.subscriptions t)
    (reads_eq : ledger'.reads t = ledger.reads t) : Tracked clients ledger' sys' t where
  drained := by rw [stream_eq, tracked.drained]
  lines_eq := by rw [phase_eq, executions_eq, reads_eq, tracked.lines_eq]
  short := by rw [phase_eq]; exact tracked.short
  untouched := by
    rw [phase_eq, subscription_eq, stream_eq]
    exact tracked.untouched
  registered_iff := by rw [registered, phase_eq, tracked.registered_iff]
  subscribed_iff := by rw [phase_eq, subscription_eq, tracked.subscribed_iff]
  served := by
    rw [subscription_eq, executions_eq, stream_eq]
    exact tracked.served

/-- The section that connects a thread, as it concerns that thread. -/
theorem joined (tracked : Tracked clients ledger sys t)
    (connecting : (sys.threads t).phase = .connecting)
    (version_eq : sys.server.core.currentVersion = UInt64.ofNat ledger.executions.length) :
    Tracked clients
      (ledger.record (.joined t sys.server.core.currentVersion sys.server.store.committedText))
      ((sys.join (clients t) t).setPhase t .serving) t := by
  obtain ⟨-, unwritten⟩ := tracked.untouched connecting
  have lines_eq := tracked.lines_eq
  rw [connecting] at lines_eq
  have stream : (sys.join (clients t) t).streams t =
      (sys.streams t).send (initialDocument (clients t).role sys.server.core.currentVersion
        sys.server.store.committedText) := Function.update_self ..
  have subscription : (ledger.record (.joined t sys.server.core.currentVersion
      sys.server.store.committedText)).subscriptions t =
        some ⟨sys.server.core.currentVersion, sys.server.store.committedText,
          ledger.executions.length, none⟩ := Function.update_self ..
  constructor
  · rw [System.streams_setPhase, stream, OutStream.buffered_send]
  · rw [System.phase_setPhase]
    exact lines_eq
  · rw [System.phase_setPhase]
    exact fun _ none => absurd none List.not_mem_nil
  · rw [System.phase_setPhase]
    rintro ⟨⟩
  · rw [System.phase_setPhase]
    exact iff_of_true List.mem_cons_self rfl
  · rw [System.phase_setPhase, subscription]
    exact iff_of_true rfl ⟨_, rfl, rfl⟩
  · intro stay found
    rw [subscription] at found
    cases found
    rw [System.streams_setPhase, stream, OutStream.written_send tracked.drained, unwritten,
      List.nil_append, version_eq]
    exact Subscription.served_joined ledger.executions _ _

/-- The section that refuses a thread, as it concerns that thread. -/
theorem refused (tracked : Tracked clients ledger sys t)
    (connecting : (sys.threads t).phase = .connecting) {streams : Streams}
    (drained : (streams t).buffered = []) :
    Tracked clients ledger ({ sys with streams }.setPhase t .finished) t := by
  obtain ⟨unsubscribed, -⟩ := tracked.untouched connecting
  obtain ⟨-, lines_eq, -, -, registered_iff, -, -⟩ := tracked
  rw [connecting] at lines_eq registered_iff
  constructor
  · exact drained
  · rw [System.phase_setPhase]
    exact lines_eq
  · rw [System.phase_setPhase]
    exact fun _ none => absurd none List.not_mem_nil
  · rw [System.phase_setPhase]
    rintro ⟨⟩
  · rw [System.phase_setPhase]
    exact registered_iff
  · rw [System.phase_setPhase, unsubscribed]
    refine iff_of_false Bool.false_ne_true ?_
    rintro ⟨_, ⟨⟩, _⟩
  · rw [unsubscribed]
    rintro _ ⟨⟩

/-- The section that removes a thread, as it concerns that thread. -/
theorem left (tracked : Tracked clients ledger sys t) (leaving : (sys.threads t).phase = .leaving)
    (removed : t ∉ (sys.leave (clients t) t).registered) :
    Tracked clients (ledger.record (.left t))
      ((sys.leave (clients t) t).setPhase t .finished) t := by
  have lines_eq := tracked.lines_eq
  rw [leaving] at lines_eq
  obtain ⟨stay, subscribed, ongoing⟩ :=
    tracked.subscribed_iff.mp (congrArg Phase.connected leaving)
  have subscription : (ledger.record (.left t)).subscriptions t =
      some { stay with leftAt := some ledger.executions.length } := by
    simp [Ledger.record, subscribed]
  have stream : (sys.leave (clients t) t).streams t =
      { (sys.streams t).drain with closes := (sys.streams t).closes + 1 } :=
    Function.update_self ..
  have written_eq : (sys.streams t).drain.written = (sys.streams t).written := by
    rw [OutStream.drain, tracked.drained, List.append_nil]
  constructor
  · rw [System.streams_setPhase, stream]
    rfl
  · rw [System.phase_setPhase]
    exact lines_eq
  · rw [System.phase_setPhase]
    exact fun _ none => absurd none List.not_mem_nil
  · rw [System.phase_setPhase]
    rintro ⟨⟩
  · rw [System.phase_setPhase]
    exact iff_of_false removed Bool.false_ne_true
  · rw [System.phase_setPhase, subscription]
    refine iff_of_false Bool.false_ne_true ?_
    rintro ⟨_, ⟨⟩, ⟨⟩⟩
  · intro ended found
    rw [subscription] at found
    cases found
    rw [System.streams_setPhase, stream, written_eq]
    exact (tracked.served stay subscribed).leave ongoing

/-- The section of one thread for its line, as it concerns any thread. -/
theorem executed {other : ThreadId} (tracked : Tracked clients ledger sys other) {line : Text}
    (holding : (sys.threads t).phase = .holding line) (result : CommandResult) :
    Tracked clients
      (ledger.record (.executed t line result (some (linePayload (clients t) sys.server line))))
      ((sys.execute (clients t) line).setPhase t .serving) other := by
  have stream : (sys.execute (clients t) line).streams other =
      if other ∈ sys.registered then
        (sys.streams other).send (linePayload (clients t) sys.server line)
      else sys.streams other := rfl
  have connected : (((sys.execute (clients t) line).setPhase t .serving).threads
      other).phase.connected = (sys.threads other).phase.connected := by
    by_cases here : other = t
    · rw [here, System.phase_setPhase, holding]
      rfl
    · rw [System.threads_setPhase_of_ne _ _ _ here]
      rfl
  constructor
  · rw [System.streams_setPhase, stream]
    split
    · rw [OutStream.buffered_send]
    · exact tracked.drained
  · have lines_eq := tracked.lines_eq
    rw [Ledger.record, linesOf_concat]
    by_cases here : t = other
    · subst here
      rw [holding] at lines_eq
      rw [if_pos rfl, System.phase_setPhase]
      simpa [Phase.inHand] using lines_eq
    · rw [if_neg here, System.threads_setPhase_of_ne _ _ _ (Ne.symm here)]
      exact lines_eq
  · by_cases here : other = t
    · rw [here, System.phase_setPhase]
      exact fun _ none => absurd none List.not_mem_nil
    · rw [System.threads_setPhase_of_ne _ _ _ here]
      exact tracked.short
  · intro phase
    by_cases here : other = t
    · rw [here, System.phase_setPhase] at phase
      cases phase
    · rw [System.threads_setPhase_of_ne _ _ _ here] at phase
      have outside : other ∉ sys.registered := by
        rw [tracked.registered_iff, show (sys.threads other).phase = .connecting from phase]
        exact Bool.false_ne_true
      rw [System.streams_setPhase, stream, if_neg outside]
      exact tracked.untouched phase
  · rw [connected]
    exact tracked.registered_iff
  · rw [connected]
    exact tracked.subscribed_iff
  · intro stay subscribed
    have received := tracked.served stay subscribed
    rw [System.streams_setPhase, stream]
    by_cases member : other ∈ sys.registered
    · obtain ⟨current, found, ongoing⟩ :=
        tracked.subscribed_iff.mp (tracked.registered_iff.mp member)
      cases subscribed.symm.trans found
      rw [if_pos member, OutStream.written_send tracked.drained]
      exact received.extend ongoing rfl
    · rw [if_neg member]
      cases ended : stay.leftAt with
      | none =>
          exact absurd (tracked.registered_iff.mpr
            (tracked.subscribed_iff.mpr ⟨stay, subscribed, ended⟩)) member
      | some n => exact received.over ended _

end Tracked

/-! ## Steps -/

namespace Delivered

variable {clients : ThreadId → ClientInfo} {ledger : Ledger} {sys : System}

/-- A step that only moves bytes and lines between a client and its thread. -/
theorem setThread (delivered : Delivered clients ledger sys) {t : ThreadId} {thread : ClientThread}
    {reads : List Text} (connected : thread.phase.connected = (sys.threads t).phase.connected)
    (untouched : thread.phase = .connecting → (sys.threads t).phase = .connecting)
    (lines_eq : linesOf t ledger.executions ++ thread.phase.inHand = reads)
    (short : ∀ line ∈ thread.phase.inHand, line.length < commandLineSize) :
    Delivered clients { ledger with reads := Function.update ledger.reads t reads }
      (sys.setThread t thread) where
  coherent := delivered.coherent
  settled := delivered.settled
  version_eq := delivered.version_eq
  numbered := delivered.numbered
  owned := delivered.owned
  tracked other := by
    have tracked := delivered.tracked other
    by_cases here : other = t
    · subst here
      have now : ((sys.setThread other thread).threads other) = thread := Function.update_self ..
      constructor
      · exact tracked.drained
      · rw [now, lines_eq]
        exact (Function.update_self other reads ledger.reads).symm
      · rw [now]
        exact short
      · rw [now]
        exact fun phase => tracked.untouched (untouched phase)
      · rw [now, connected]
        exact tracked.registered_iff
      · rw [now, connected]
        exact tracked.subscribed_iff
      · exact tracked.served
    · have same : (sys.setThread t thread).threads other = sys.threads other :=
        Function.update_of_ne here ..
      exact tracked.frame (by rw [same]) rfl Iff.rfl rfl rfl (Function.update_of_ne here ..)

/-- The same without a new line. -/
theorem setThread_idle (delivered : Delivered clients ledger sys) {t : ThreadId}
    {thread : ClientThread} (connected : thread.phase.connected = (sys.threads t).phase.connected)
    (untouched : thread.phase = .connecting → (sys.threads t).phase = .connecting)
    (held : thread.phase.inHand = (sys.threads t).phase.inHand) :
    Delivered clients ledger (sys.setThread t thread) := by
  have lines_eq : linesOf t ledger.executions ++ thread.phase.inHand = ledger.reads t := by
    rw [held, (delivered.tracked t).lines_eq]
  have moved := delivered.setThread connected untouched lines_eq
    (held ▸ (delivered.tracked t).short)
  rwa [Function.update_eq_self] at moved

theorem registered (delivered : Delivered clients ledger sys) {t : ThreadId}
    (connected : (sys.threads t).phase.connected = true) : t ∈ sys.registered :=
  (delivered.tracked t).registered_iff.mpr connected

/-- The section that executes a line. -/
theorem executeSection_eq (delivered : Delivered clients ledger sys) {t : ThreadId} {line : Text}
    (holding : (sys.threads t).phase = .holding line) :
    Id.run (executeSection clients sys t line) =
      ((sys.execute (clients t) line).setPhase t .serving,
        .executed t line (sys.server.plan (clients t).role line).1
          (some (linePayload (clients t) sys.server line))) := by
  have short := (delivered.tracked t).short line (by rw [holding]; exact List.mem_singleton_self _)
  exact run_executeSection clients delivered.coherent delivered.settled
    delivered.owned.registered_nodup t short

/-- The section in which a thread leaves. -/
theorem leaveSection_eq (delivered : Delivered clients ledger sys) {t : ThreadId}
    (leaving : (sys.threads t).phase = .leaving) :
    leaveSection clients sys t = ((sys.leave (clients t) t).setPhase t .finished, .left t) :=
  delivered.owned.leaveSection_eq (delivered.registered (congrArg Phase.connected leaving))

theorem readCommand (delivered : Delivered clients ledger sys) {t : ThreadId}
    (serving : (sys.threads t).phase = .serving) :
    Delivered clients (ledger.record (readCommand sys t).2) (readCommand sys t).1 := by
  have lines_eq := (delivered.tracked t).lines_eq
  rw [serving, Phase.inHand, List.append_nil] at lines_eq
  rcases readCommand_cases sys t with blocked | ⟨incoming, ended⟩ | ⟨incoming, line, good, taken⟩
  · rw [blocked]
    exact delivered
  · rw [ended]
    apply delivered.setThread_idle
    · rw [serving]
      rfl
    · rintro ⟨⟩
    · rw [serving]
      rfl
  · rw [taken]
    apply delivered.setThread
    · rw [serving]
      rfl
    · rintro ⟨⟩
    · rw [lines_eq]
      rfl
    · exact fun _ member => List.mem_singleton.mp member ▸ good.length_lt

theorem join (delivered : Delivered clients ledger sys) {t : ThreadId}
    (connecting : (sys.threads t).phase = .connecting)
    (absent : clientRegistryFind sys.registry (clients t).pid = none) :
    Delivered clients
      (ledger.record (.joined t sys.server.core.currentVersion sys.server.store.committedText))
      ((sys.join (clients t) t).setPhase t .serving) where
  coherent := delivered.coherent
  settled := delivered.settled
  version_eq := delivered.version_eq
  numbered := delivered.numbered
  owned := delivered.owned.join absent
  tracked other := by
    by_cases here : other = t
    · subst here
      exact (delivered.tracked other).joined connecting delivered.version_eq
    · apply (delivered.tracked other).frame
      · rw [System.threads_setPhase_of_ne _ _ _ here]
        rfl
      · exact Function.update_of_ne here ..
      · exact List.mem_cons.trans (or_iff_right here)
      · rfl
      · exact Function.update_of_ne here ..
      · rfl

theorem refuse (delivered : Delivered clients ledger sys) {t : ThreadId}
    (connecting : (sys.threads t).phase = .connecting) {streams : Streams}
    (others : ∀ other, other ≠ t → streams other = sys.streams other)
    (drained : (streams t).buffered = []) :
    Delivered clients ledger ({ sys with streams }.setPhase t .finished) where
  coherent := delivered.coherent
  settled := delivered.settled
  version_eq := delivered.version_eq
  numbered := delivered.numbered
  owned := delivered.owned
  tracked other := by
    by_cases here : other = t
    · subst here
      exact (delivered.tracked other).refused connecting drained
    · apply (delivered.tracked other).frame
      · rw [System.threads_setPhase_of_ne _ _ _ here]
      · exact others other here
      · rfl
      · rfl
      · rfl
      · rfl

theorem leave (delivered : Delivered clients ledger sys) {t : ThreadId}
    (leaving : (sys.threads t).phase = .leaving) :
    Delivered clients (ledger.record (.left t))
      ((sys.leave (clients t) t).setPhase t .finished) where
  coherent := delivered.coherent
  settled := delivered.settled
  version_eq := delivered.version_eq
  numbered := delivered.numbered
  owned := delivered.owned.leave t
  tracked other := by
    have connected : (sys.threads t).phase.connected = true := congrArg Phase.connected leaving
    have mem_iff := delivered.owned.mem_registered_leave (delivered.registered connected) other
    by_cases here : other = t
    · subst here
      exact (delivered.tracked other).left leaving fun member => (mem_iff.mp member).2 rfl
    · apply (delivered.tracked other).frame
      · rw [System.threads_setPhase_of_ne _ _ _ here]
        rfl
      · exact Function.update_of_ne here ..
      · exact mem_iff.trans (and_iff_left here)
      · rfl
      · exact Function.update_of_ne here ..
      · rfl

theorem execute (delivered : Delivered clients ledger sys) {t : ThreadId} {line : Text}
    (holding : (sys.threads t).phase = .holding line) :
    Delivered clients
      (ledger.record (.executed t line (sys.server.plan (clients t).role line).1
        (some (linePayload (clients t) sys.server line))))
      ((sys.execute (clients t) line).setPhase t .serving) where
  coherent := delivered.coherent.processed ..
  settled := Server.log_commit _
  version_eq := by
    have counted := delivered.coherent.currentVersion_processed (clients t).username.val
      (clients t).role line
    rw [delivered.version_eq] at counted
    rw [Ledger.record, List.length_append, List.length_singleton, UInt64.ofNat_add]
    exact counted
  numbered n execution found := by
    rw [Ledger.record, List.getElem?_append] at found
    by_cases older : n < ledger.executions.length
    · rw [if_pos older] at found
      exact delivered.numbered n execution found
    · rw [if_neg older, List.getElem?_singleton] at found
      split at found
      · cases found
        have last : n = ledger.executions.length := by omega
        rw [last, linePayload, delivered.version_eq, UInt64.ofNat_add]
        rfl
      · cases found
  owned := delivered.owned
  tracked other := (delivered.tracked other).executed holding _

theorem step (delivered : Delivered clients ledger sys) (action : Action) :
    Delivered clients (ledger.record (systemStep clients sys action).2)
      (systemStep clients sys action).1 := by
  cases action with
  | send t bytes => exact delivered.setThread_idle rfl id rfl
  | hangUp t => exact delivered.setThread_idle rfl id rfl
  | step t =>
      rw [systemStep, threadStep]
      cases phase : (sys.threads t).phase with
      | connecting =>
          rcases run_connectSection clients sys t with
            ⟨absent, joined⟩ | ⟨streams, others, drained, refused⟩
          · simp only [joined]
            exact delivered.join phase absent
          · simp only [refused]
            exact delivered.refuse phase others drained
      | serving => exact delivered.readCommand phase
      | holding line =>
          simp only [delivered.executeSection_eq phase]
          exact delivered.execute phase
      | leaving =>
          simp only [delivered.leaveSection_eq phase, Id.run_pure]
          exact delivered.leave phase
      | finished => exact delivered

end Delivered

/-! ## What the steps of a thread achieve -/

/-- What the next step of a thread achieves.  A client whose pid is free is sent the document
and registered.  A line that has arrived is taken in hand.  The line in hand is executed, and
its payload goes to every registered client.  A client that leaves is removed, and no other. -/
def Achieves (clients : ThreadId → ClientInfo) (t : ThreadId) (ledger : Ledger) (sys : System)
    (ledger' : Ledger) (sys' : System) : Prop :=
  match (sys.threads t).phase with
  | .connecting =>
      (∀ other ∈ sys.registered, (clients other).pid ≠ (clients t).pid) →
        let version := sys.server.core.currentVersion
        let text := sys.server.store.committedText
        (sys'.threads t).phase = .serving ∧ sys'.registered = t :: sys.registered ∧
          ledger'.subscriptions t = some ⟨version, text, ledger.executions.length, none⟩ ∧
          (sys'.streams t).written = initialDocument (clients t).role version text
  | .serving =>
      match fgets commandLineSize (sys.threads t).hungUp (sys.threads t).incoming with
      | none => sys' = sys ∧ ledger' = ledger
      | some (none, _) => (sys'.threads t).phase = .leaving ∧ ledger' = ledger
      | some (some buffer, rest) =>
          let line := untilNul buffer
          if isQuit line then
            (sys'.threads t).phase = .leaving ∧ ledger' = ledger
          else
            (sys'.threads t).phase = .holding line ∧ (sys'.threads t).incoming = rest ∧
              ledger'.reads t = ledger.reads t ++ [line]
  | .holding line =>
      ∃ execution payload, execution.thread = t ∧ execution.line = line ∧
        execution.payload = some payload ∧
        payload = payloadText (UInt64.ofNat (ledger.executions.length + 1))
          [execution.entry clients] ∧
        ledger'.executions = ledger.executions ++ [execution] ∧
        (sys'.threads t).phase = .serving ∧ sys'.registered = sys.registered ∧
        ∀ other ∈ sys.registered,
          (sys'.streams other).written = (sys.streams other).written ++ payload
  | .leaving =>
      (sys'.threads t).phase = .finished ∧
        ∀ other, other ∈ sys'.registered ↔ other ∈ sys.registered ∧ other ≠ t
  | .finished => sys' = sys ∧ ledger' = ledger

namespace Delivered

variable {clients : ThreadId → ClientInfo} {ledger : Ledger} {sys : System} {t : ThreadId}

/-- A thread can be refused only by a client with its pid. -/
theorem connectSection_eq (delivered : Delivered clients ledger sys)
    (free : ∀ other ∈ sys.registered, (clients other).pid ≠ (clients t).pid) :
    Id.run (connectSection clients sys t) =
      ((sys.join (clients t) t).setPhase t .serving,
        .joined t sys.server.core.currentVersion sys.server.store.committedText) := by
  have absent : clientRegistryFind sys.registry (clients t).pid = none := by
    simp only [clientRegistryFind, List.find?_eq_none, beq_iff_eq]
    intro conn member same
    rw [delivered.owned.pid_eq conn member] at same
    exact free conn.outStream (List.mem_map_of_mem member) same
  exact run_connectSection_of_absent clients sys absent

theorem achieves_connecting (delivered : Delivered clients ledger sys)
    (connecting : (sys.threads t).phase = .connecting) :
    Achieves clients t ledger sys (ledger.record (systemStep clients sys (.step t)).2)
      (systemStep clients sys (.step t)).1 := by
  rw [Achieves, connecting]
  intro free version text
  rw [systemStep, threadStep, connecting]
  simp only [delivered.connectSection_eq free]
  refine ⟨System.phase_setPhase .., rfl, Function.update_self .., ?_⟩
  obtain ⟨-, unwritten⟩ := (delivered.tracked t).untouched connecting
  have stream : (sys.join (clients t) t).streams t =
      (sys.streams t).send (initialDocument (clients t).role version text) :=
    Function.update_self ..
  rw [System.streams_setPhase, stream, OutStream.written_send (delivered.tracked t).drained,
    unwritten, List.nil_append]

theorem achieves_serving (serving : (sys.threads t).phase = .serving) :
    Achieves clients t ledger sys (ledger.record (systemStep clients sys (.step t)).2)
      (systemStep clients sys (.step t)).1 := by
  rw [Achieves, serving, systemStep, threadStep, serving]
  simp only [Id.run_pure]
  match found : fgets commandLineSize (sys.threads t).hungUp (sys.threads t).incoming with
  | none => simp [Process.readCommand, found, Ledger.record]
  | some (none, rest) => simp [Process.readCommand, found, Ledger.record, System.setThread]
  | some (some buffer, rest) =>
      by_cases quit : isQuit (untilNul buffer) = true <;>
        simp [Process.readCommand, found, quit, Ledger.record, System.setThread]

theorem achieves_holding (delivered : Delivered clients ledger sys) {line : Text}
    (holding : (sys.threads t).phase = .holding line) :
    Achieves clients t ledger sys (ledger.record (systemStep clients sys (.step t)).2)
      (systemStep clients sys (.step t)).1 := by
  rw [Achieves, holding, systemStep, threadStep, holding]
  simp only [delivered.executeSection_eq holding]
  refine ⟨⟨t, line, _, _⟩, _, rfl, rfl, rfl, ?_, rfl, System.phase_setPhase .., rfl, ?_⟩
  · rw [linePayload, delivered.version_eq, UInt64.ofNat_add]
    rfl
  · intro other member
    have stream : (sys.execute (clients t) line).streams other =
        (sys.streams other).send (linePayload (clients t) sys.server line) := if_pos member
    rw [System.streams_setPhase, stream, OutStream.written_send (delivered.tracked other).drained]

theorem achieves_leaving (delivered : Delivered clients ledger sys)
    (leaving : (sys.threads t).phase = .leaving) :
    Achieves clients t ledger sys (ledger.record (systemStep clients sys (.step t)).2)
      (systemStep clients sys (.step t)).1 := by
  rw [Achieves, leaving, systemStep, threadStep, leaving]
  simp only [delivered.leaveSection_eq leaving, Id.run_pure]
  exact ⟨System.phase_setPhase .., delivered.owned.mem_registered_leave
    (delivered.registered (congrArg Phase.connected leaving))⟩

theorem achieves (delivered : Delivered clients ledger sys) (t : ThreadId) :
    Achieves clients t ledger sys (ledger.record (systemStep clients sys (.step t)).2)
      (systemStep clients sys (.step t)).1 := by
  cases phase : (sys.threads t).phase with
  | connecting => exact delivered.achieves_connecting phase
  | serving => exact achieves_serving phase
  | holding line => exact delivered.achieves_holding phase
  | leaving => exact delivered.achieves_leaving phase
  | finished =>
      rw [Achieves, phase, systemStep, threadStep, phase]
      exact ⟨rfl, rfl⟩

end Delivered

/-! ## Runs -/

/-- The system after a run of actions. -/
def systemReached (clients : ThreadId → ClientInfo) (addr : DocAddr) (others : OtherOps addr)
    (actions : List Action) : System :=
  (run (systemStep clients) (System.start addr others) actions).1

/-- The ledger of that run. -/
def ledgerReached (clients : ThreadId → ClientInfo) (addr : DocAddr) (others : OtherOps addr)
    (actions : List Action) : Ledger :=
  Ledger.ofEvents (run (systemStep clients) (System.start addr others) actions).2

theorem systemReached_concat (clients : ThreadId → ClientInfo) (addr : DocAddr)
    (others : OtherOps addr) (actions : List Action) (action : Action) :
    systemReached clients addr others (actions ++ [action]) =
      (systemStep clients (systemReached clients addr others actions) action).1 := by
  rw [systemReached, run_append]
  rfl

theorem ledgerReached_concat (clients : ThreadId → ClientInfo) (addr : DocAddr)
    (others : OtherOps addr) (actions : List Action) (action : Action) :
    ledgerReached clients addr others (actions ++ [action]) =
      (ledgerReached clients addr others actions).record
        (systemStep clients (systemReached clients addr others actions) action).2 := by
  rw [ledgerReached, run_append, Ledger.ofEvents, List.foldl_append]
  rfl

theorem delivered_reached (clients : ThreadId → ClientInfo) (addr : DocAddr)
    (others : OtherOps addr) (actions : List Action) :
    Delivered clients (ledgerReached clients addr others actions)
      (systemReached clients addr others actions) := by
  apply run_history (systemStep clients)
    (fun history sys => Delivered clients (Ledger.ofEvents history) sys)
  · intro history sys action delivered
    have recorded : Ledger.ofEvents (history ++ [(systemStep clients sys action).2]) =
        (Ledger.ofEvents history).record (systemStep clients sys action).2 := by
      simp [Ledger.ofEvents]
    rw [recorded]
    exact delivered.step action
  · exact delivered_start clients addr others

/-- The `n`-th command executed is broadcast with version `n + 1`, as the only entry
of its payload.  A client is registered exactly while its stay goes on, and its
stream is the initial document followed by the payloads of the commands executed
during its stay, numbered from the version of that document on.  The lines a
thread has read are those of its commands executed, in order, and the one it
holds.  A thread that takes its next step joins, takes a line, executes the one it holds
and sends its payload to every registered client, or leaves. -/
theorem delivery_is_gap_free (clients : ThreadId → ClientInfo) (addr : DocAddr)
    (others : OtherOps addr) (actions : List Action) :
    let sys := systemReached clients addr others actions
    let ledger := ledgerReached clients addr others actions
    let executions := ledger.executions
    (∀ n execution, executions[n]? = some execution →
      execution.payload =
        some (payloadText (UInt64.ofNat (n + 1)) [execution.entry clients])) ∧
    (∀ t, t ∈ sys.registered ↔ ∃ stay, ledger.subscriptions t = some stay ∧ stay.leftAt = none) ∧
    (∀ t stay, ledger.subscriptions t = some stay →
      stay.version = UInt64.ofNat stay.joinedAt ∧
        (sys.streams t).buffered = [] ∧
        (sys.streams t).written =
          initialDocument (clients t).role stay.version stay.text ++
            (stay.payloads executions).flatten ∧
        stay.joinedAt + (stay.payloads executions).length = stay.endsAt executions ∧
        ∀ k < (stay.payloads executions).length, ∃ execution,
          executions[stay.joinedAt + k]? = some execution ∧
            (stay.payloads executions)[k]? =
              some (payloadText (stay.version + UInt64.ofNat (k + 1))
                [execution.entry clients])) ∧
    (∀ t, linesOf t executions ++ (sys.threads t).phase.inHand = ledger.reads t) ∧
    ∀ t, Achieves clients t ledger sys (ledgerReached clients addr others (actions ++ [.step t]))
      (systemReached clients addr others (actions ++ [.step t])) := by
  intro sys ledger executions
  have delivered : Delivered clients ledger sys := delivered_reached clients addr others actions
  refine ⟨delivered.numbered, ?_, ?_, ?_, ?_⟩
  · intro t
    exact (delivered.tracked t).registered_iff.trans (delivered.tracked t).subscribed_iff
  · intro t stay subscribed
    have served : stay.Served executions (clients t).role (sys.streams t).written :=
      (delivered.tracked t).served stay subscribed
    obtain ⟨version_eq, joinedAt_le, endsAt_le, written_eq⟩ := served
    have length_eq := Subscription.length_payloads endsAt_le
    refine ⟨version_eq, (delivered.tracked t).drained, written_eq, ?_, ?_⟩
    · rw [length_eq]
      omega
    · intro k within
      rw [length_eq] at within
      have inside : stay.joinedAt + k < executions.length := by omega
      have found := List.getElem?_eq_getElem inside
      refine ⟨_, found, ?_⟩
      rw [Subscription.getElem?_payloads (by omega), found, Option.map_some,
        delivered.numbered _ _ found, version_eq, ← UInt64.ofNat_add, ← Nat.add_assoc]
      rfl
  · intro t
    exact (delivered.tracked t).lines_eq
  · intro t
    rw [systemReached_concat, ledgerReached_concat]
    exact delivered.achieves t

end CollabMarkdown.Process
