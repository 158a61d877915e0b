import CollabMarkdown.Auth.Usernames
import CollabMarkdown.Client.Select
import CollabMarkdown.Core.Replay
import CollabMarkdown.Process.Atomicity
import CollabMarkdown.Process.Chronicle

/-!
# What a client sees

Whatever part of its stream has arrived, a client that has read its handshake and
some payloads holds, once it has replayed them, a document the server had: the one
after the commands executed when it joined and the ones broadcast to it since.
-/

namespace CollabMarkdown.Client

open CollabMarkdown.Auth (Word accepted_username_is_word authLineBufSize authLookupRole scanLines)
open CollabMarkdown.CString
open CollabMarkdown.Command
open CollabMarkdown.Core
open CollabMarkdown.Markdown
open CollabMarkdown.Process
open CollabMarkdown.Sequence
open CollabMarkdown.Transition

/-! ## Replaying -/

/-- Replay one payload after the other. -/
def replayAll (replica : Store) : List (List EditLogEntry) → List CommandResult × Store
  | [] => ([], replica)
  | entries :: rest =>
      let out := replayPayload replica entries
      let later := replayAll out.2 rest
      (out.1 ++ later.1, later.2)

section

variable {clients : ThreadId → ClientInfo} {srv : Server} {replica : Store}

/-- A replica replays the payload of one line as the server executed it. -/
theorem replay_processed (coherent : srv.Coherent) (settled : srv.log = [])
    (synchronised : Synchronised replica srv) (user : Text) (role : UserRole) (line : Text) :
    let out := replayPayload replica
      [⟨user, withoutTrailingNewline line, (srv.plan role line).1⟩]
    (∀ result ∈ out.1, result = .success) ∧ Synchronised out.2 (srv.processed user role line) := by
  have replayable := (replayable_of_log_nil coherent settled).step
    (.submit (some user) role (some line))
  rw [coherent.coreStep_submit] at replayable
  have logged : (srv.submitted (srv.plan role line).2
      ⟨user, withoutTrailingNewline line, (srv.plan role line).1⟩).log =
        [⟨user, withoutTrailingNewline line, (srv.plan role line).1⟩] := by
    rw [Server.log_submitted, settled, List.nil_append]
  have committed := replayable.commit (synchronised_submitted.mpr synchronised)
  rw [logged] at committed
  exact committed

/-- A replica replays the payloads of a list of commands. -/
theorem replayAll_executions (coherent : srv.Coherent) (settled : srv.log = [])
    (synchronised : Synchronised replica srv) {executions : List Execution}
    (results : ∀ n execution, executions[n]? = some execution →
      execution.result = ((serverAfter clients srv (executions.take n)).plan
        (clients execution.thread).role execution.line).1) :
    let out := replayAll replica (executions.map fun execution => [execution.entry clients])
    (∀ result ∈ out.1, result = .success) ∧
      Synchronised out.2 (serverAfter clients srv executions) := by
  induction executions generalizing srv replica with
  | nil => exact ⟨fun _ member => absurd member List.not_mem_nil, synchronised⟩
  | cons execution rest ih =>
      have result : execution.result =
          (srv.plan (clients execution.thread).role execution.line).1 := results 0 execution rfl
      obtain ⟨succeeded, next⟩ := replay_processed coherent settled synchronised
        (clients execution.thread).username (clients execution.thread).role execution.line
      rw [← result] at succeeded next
      obtain ⟨later, last⟩ := ih (coherent.processed _ _ _) (Server.log_commit _) next
        fun n other found => results (n + 1) other found
      refine ⟨?_, last⟩
      intro result member
      rcases List.mem_append.mp member with now | after
      · exact succeeded result now
      · exact later result after

end

/-! ## The stream of a client -/

theorem take_published (clients : ThreadId → ClientInfo) (n k : Nat)
    (executions : List Execution) :
    (published clients n executions).take k = published clients n (executions.take k) := by
  induction executions generalizing n k with
  | nil => simp [published]
  | cons execution rest ih =>
      cases k with
      | zero => rfl
      | succ k => simp [published, ih]

theorem map_published (clients : ThreadId → ClientInfo) (n : Nat) (executions : List Execution) :
    (published clients n executions).map (·.2) =
      executions.map fun execution => [execution.entry clients] := by
  induction executions generalizing n with
  | nil => rfl
  | cons execution rest ih => simp [published, ih]

/-- With names that are words and lines as they are read, these are broadcasts. -/
theorem broadcasts_published {clients : ThreadId → ClientInfo}
    (words : ∀ t, Word (clients t).username.val) (n : Nat) {executions : List Execution}
    (lines : ∀ execution ∈ executions, ReadLine execution.line) :
    ∃ broadcasts : List Broadcast,
      (broadcasts.map fun broadcast => (broadcast.version, broadcast.entries)) =
        published clients n executions := by
  induction executions generalizing n with
  | nil => exact ⟨[], rfl⟩
  | cons execution rest ih =>
      obtain ⟨broadcasts, later⟩ := ih (n + 1) fun other member =>
        lines other (List.mem_cons_of_mem _ member)
      obtain ⟨noNul, length_lt, newline_last⟩ := lines execution List.mem_cons_self
      obtain ⟨nonempty, noSpace, -, noNewline, -⟩ := words execution.thread
      have length_le : execution.line.length ≤ 511 := Nat.le_of_lt_succ length_lt
      let username := (clients execution.thread).username
      have fits : username.val.length ≤ 127 := Nat.le_of_lt_succ username.property
      let edit : ClientEdit :=
        { user := ⟨username.val, nonempty, fits, noSpace, noNewline⟩
          commandLine := ⟨execution.line, noNul, length_le, newline_last⟩
          result := execution.result }
      refine ⟨⟨UInt64.ofNat (n + 1), [edit]⟩ :: broadcasts, ?_⟩
      rw [List.map_cons, later]
      rfl

/-! ## Receiving part of it -/

theorem receivePasses_resumable (passes : Nat) : Resumable (receivePasses false passes) := by
  induction passes with
  | zero =>
      intro pending shown rest more read
      simp only [receivePasses, Option.some.injEq, Prod.mk.injEq] at read ⊢
      exact ⟨read.1, by rw [read.2]⟩
  | succ passes ih =>
      intro pending shown rest more read
      rw [receivePasses] at read ⊢
      cases pass : receivePass false pending with
      | none => simp [pass] at read
      | some out =>
          obtain ⟨chunks, left⟩ := out
          rw [receivePass_resumable more pass]
          rw [pass] at read
          cases chunks with
          | none => simpa using read
          | some chunks =>
              simp only at read ⊢
              obtain ⟨⟨later, behind⟩, recursion, out⟩ := Option.map_eq_some_iff.mp read
              rw [Prod.mk.injEq] at out
              obtain ⟨rfl, rfl⟩ := out
              rw [ih more recursion]
              rfl

/-- More passes than payloads do not come to an end. -/
theorem receivePasses_short {broadcasts : List Broadcast} {passes : Nat}
    (beyond : broadcasts.length < passes) :
    receivePasses false passes (broadcasts.map (·.text)).flatten = none := by
  induction broadcasts generalizing passes with
  | nil =>
      obtain ⟨spare, rfl⟩ := Nat.exists_eq_add_of_lt beyond
      have blocked : receivePass false [] = none := by decide
      rw [List.length_nil, receivePasses]
      simp only [List.map_nil, List.flatten_nil, blocked]
  | cons broadcast rest ih =>
      cases passes with
      | zero => contradiction
      | succ passes =>
          rw [List.map_cons, List.flatten_cons, receivePasses, Broadcast.text,
            receivePass_payload false broadcast.version _ broadcast.decodable]
          simp only [ih (Nat.lt_of_succ_lt_succ beyond), Option.map_none]

/-- Passes that come to an end on part of a stream of broadcasts have shown the first
ones. -/
theorem receivePasses_part {broadcasts : List Broadcast} {passes : Nat} {arrived left more : Text}
    {shown : List (List Text)} (stream : arrived ++ more = (broadcasts.map (·.text)).flatten)
    (received : receivePasses false passes arrived = some (shown, left)) :
    passes ≤ broadcasts.length ∧ shown = (broadcasts.take passes).map broadcastChunks := by
  have whole := receivePasses_resumable passes more received
  rw [stream] at whole
  by_cases available : passes ≤ broadcasts.length
  · have taken := receivePasses_take false broadcasts [] available
    rw [List.append_nil, whole, Option.some.injEq, Prod.mk.injEq] at taken
    exact ⟨available, taken.1⟩
  · rw [receivePasses_short (Nat.lt_of_not_le available)] at whole
    contradiction

/-- There is one way to read a list of payloads back. -/
theorem payloads_inj {log log' : List (UInt64 × List EditLogEntry)}
    (decodable : ∀ payload ∈ log, ∀ entry ∈ payload.2, entry.Decodable)
    (decodable' : ∀ payload ∈ log', ∀ entry ∈ payload.2, entry.Decodable)
    (same : (log.map fun payload => payloadText payload.1 payload.2) =
      log'.map fun payload => payloadText payload.1 payload.2) : log = log' := by
  induction log generalizing log' with
  | nil => exact (List.map_eq_nil_iff.mp same.symm).symm
  | cons payload rest ih =>
      cases log' with
      | nil => contradiction
      | cons payload' rest' =>
          rw [List.map_cons, List.map_cons, List.cons.injEq] at same
          obtain ⟨version, entries, -⟩ := payloadText_append_inj
            (decodable payload List.mem_cons_self) (decodable' payload' List.mem_cons_self)
            (congrArg (· ++ []) same.1)
          have later := ih (fun other member => decodable other (List.mem_cons_of_mem _ member))
            (fun other member => decodable' other (List.mem_cons_of_mem _ member)) same.2
          rw [Prod.ext version entries, later]

/-! ## Views -/

/-- A log that texts can be read back as, payload by payload. -/
def ReadsBack (texts : List Text) (log : List (UInt64 × List EditLogEntry)) : Prop :=
  (∀ payload ∈ log, ∀ entry ∈ payload.2, entry.Decodable) ∧
    (log.map fun payload => payloadText payload.1 payload.2) = texts

/-- There is one way to read texts back at most. -/
theorem ReadsBack.unique {texts : List Text} {log log' : List (UInt64 × List EditLogEntry)}
    (reads : ReadsBack texts log) (reads' : ReadsBack texts log') : log' = log :=
  payloads_inj reads'.1 reads.1 (reads'.2.trans reads.2.symm)

/-- The bytes that have arrived at a client, once they hold the handshake, hold the
document after the commands it joined after; and if they hold some whole payloads
behind, then these can be read back in one way, as the commands published since, and
replaying them on that document gives with success the one after as many commands
more. -/
def ShowsPast (clients : ThreadId → ClientInfo) (first : Server) (executions : List Execution)
    (role : UserRole) (joinedAt : Nat) (reads : ShortReads) (arrived : Text) : Prop :=
  let document := documentAfter clients first executions
  ∀ greeting rest, Id.run (handshake reads false arrived) = some (greeting, rest) →
    greeting = .connected
      ⟨roleToWireString role, (UInt64.ofNat joinedAt).toNat, document joinedAt⟩ ∧
    ∀ passes shown left, receivePasses false passes rest = some (shown, left) →
      let log := published clients joinedAt ((executions.drop joinedAt).take passes)
      joinedAt + passes ≤ executions.length ∧
        ReadsBack (shown.map List.flatten) log ∧
        (∀ other, ReadsBack (shown.map List.flatten) other → other = log) ∧
        ∀ addr (others : OtherOps addr),
          let replica := replayAll
            (Store.snapshot addr others (document joinedAt) (UInt64.ofNat joinedAt))
            (log.map (·.2))
          (∀ result ∈ replica.1, result = .success) ∧
            replica.2.committedText = document (joinedAt + passes) ∧
            replica.2.version = UInt64.ofNat (joinedAt + passes)

/-- Replaying the commands from one place on leads from the document at that place to
the one further on. -/
theorem replayAll_document (clients : ThreadId → ClientInfo) {first : Server}
    (coherent : first.Coherent) (settled : first.log = []) (zero : first.core.currentVersion = 0)
    {executions : List Execution} (results : ∀ n execution, executions[n]? = some execution →
      execution.result = ((serverAfter clients first (executions.take n)).plan
        (clients execution.thread).role execution.line).1)
    {joinedAt passes : Nat} (within : joinedAt + passes ≤ executions.length) (addr : DocAddr)
    (others : OtherOps addr) :
    let replica := replayAll (Store.snapshot addr others
        (documentAfter clients first executions joinedAt) (UInt64.ofNat joinedAt))
      (((executions.drop joinedAt).take passes).map fun execution => [execution.entry clients])
    (∀ result ∈ replica.1, result = .success) ∧
      replica.2.committedText = documentAfter clients first executions (joinedAt + passes) ∧
      replica.2.version = UInt64.ofNat (joinedAt + passes) := by
  have upTo (n : Nat) : serverAfter clients first (executions.take (joinedAt + n)) =
      serverAfter clients (serverAfter clients first (executions.take joinedAt))
        ((executions.drop joinedAt).take n) := by
    rw [List.take_add, serverAfter_append]
  obtain ⟨coherent', settled', version⟩ :=
    serverAfter_settled clients coherent settled (executions.take joinedAt)
  rw [zero, UInt64.zero_add, List.length_take_of_le (by omega)] at version
  have snapshot := synchronised_snapshot coherent' addr others
  rw [version] at snapshot
  have results' : ∀ n execution,
      ((executions.drop joinedAt).take passes)[n]? = some execution → execution.result =
        ((serverAfter clients (serverAfter clients first (executions.take joinedAt))
          (((executions.drop joinedAt).take passes).take n)).plan
            (clients execution.thread).role execution.line).1 := by
    intro n execution found
    rw [List.getElem?_take] at found
    split at found
    · rename_i early
      rw [List.getElem?_drop] at found
      rw [results _ _ found, upTo, List.take_take, Nat.min_eq_left (Nat.le_of_lt early)]
    · contradiction
  obtain ⟨succeeded, followed⟩ := replayAll_executions coherent' settled' snapshot results'
  obtain ⟨coherent'', -, version'⟩ :=
    serverAfter_settled clients coherent settled (executions.take (joinedAt + passes))
  rw [zero, UInt64.zero_add, List.length_take_of_le within] at version'
  refine ⟨succeeded, followed.committedText_eq.trans ?_, followed.version_eq.trans ?_⟩
  · rw [documentAfter, upTo]
  · rw [← upTo, ← version']
    exact coherent''.version_eq.symm

/-- The payloads of a stay are broadcasts. -/
theorem broadcasts_of_stay {clients : ThreadId → ClientInfo}
    (words : ∀ t, Word (clients t).username.val) {first : Server} {ledger : Process.Ledger}
    {sys : System}
    (delivered : Delivered clients ledger sys) (chronicle : Chronicle clients first ledger sys)
    (stay : Subscription) :
    ∃ broadcasts : List Broadcast, broadcasts.map (·.text) = stay.payloads ledger.executions ∧
      (broadcasts.map fun broadcast => (broadcast.version, broadcast.entries)) =
        published clients stay.joinedAt
          ((ledger.executions.take (stay.endsAt ledger.executions)).drop stay.joinedAt) := by
  have read (execution : Execution) (member : execution ∈
      (ledger.executions.take (stay.endsAt ledger.executions)).drop stay.joinedAt) :
      ReadLine execution.line :=
    chronicle.line_executed delivered (List.mem_of_mem_take (List.mem_of_mem_drop member))
  obtain ⟨broadcasts, broadcasts_eq⟩ := broadcasts_published words stay.joinedAt read
  refine ⟨broadcasts, ?_, broadcasts_eq⟩
  have texts : broadcasts.map (·.text) =
      (broadcasts.map fun broadcast => (broadcast.version, broadcast.entries)).map
        fun payload => payloadText payload.1 payload.2 := by
    rw [List.map_map]
    rfl
  rw [texts, broadcasts_eq, delivered.payloads_eq]

/-- What a client has been sent, and may not all have arrived, shows past documents. -/
theorem showsPast_of_served {clients : ThreadId → ClientInfo}
    (words : ∀ t, Word (clients t).username.val) {addr : DocAddr} {others : OtherOps addr}
    {ledger : Process.Ledger} {sys : System} (delivered : Delivered clients ledger sys)
    (chronicle : Chronicle clients (Server.fresh addr others) ledger sys) {t : ThreadId}
    {stay : Subscription} (subscribed : ledger.subscriptions t = some stay)
    (fits : stay.text.length < sizeModulus) (reads : ShortReads) {arrived : Text}
    (sent : arrived <+: (sys.streams t).written) :
    ShowsPast clients (Server.fresh addr others) ledger.executions (clients t).role
      stay.joinedAt reads arrived := by
  intro greeting rest greeted
  obtain ⟨more, whole⟩ := sent
  obtain ⟨version_eq, joinedAt_le, endsAt_le, written_eq⟩ :=
    (delivered.tracked t).served stay subscribed
  obtain ⟨-, text_eq⟩ := chronicle.text_eq t stay subscribed
  -- The whole stream gives the same greeting, and leaves the payloads.
  have again : Id.run (handshake reads false (arrived ++ more)) = some (greeting, rest ++ more) :=
    greet_resumable reads more greeted
  rw [whole, written_eq, run_handshake reads false _ _ _ fits, Option.some.injEq,
    Prod.mk.injEq] at again
  obtain ⟨rfl, stream⟩ := again
  refine ⟨by rw [version_eq, text_eq]; rfl, ?_⟩
  intro passes shown left received
  obtain ⟨broadcasts, texts, broadcasts_eq⟩ := broadcasts_of_stay words delivered chronicle stay
  rw [← texts] at stream
  obtain ⟨available, rfl⟩ := receivePasses_part stream.symm received
  have count : broadcasts.length = stay.endsAt ledger.executions - stay.joinedAt := by
    rw [← Subscription.length_payloads endsAt_le, ← texts, List.length_map]
  have within : stay.joinedAt + passes ≤ ledger.executions.length := by omega
  -- What was published is one way to read the payloads back.
  have readsBack : ReadsBack (((broadcasts.take passes).map broadcastChunks).map List.flatten)
      (published clients stay.joinedAt ((ledger.executions.drop stay.joinedAt).take passes)) := by
    have taken : (ledger.executions.drop stay.joinedAt).take passes =
        ((ledger.executions.take (stay.endsAt ledger.executions)).drop stay.joinedAt).take
          passes := by
      rw [List.drop_take, List.take_take, Nat.min_eq_left (by omega)]
    rw [taken, ← take_published, ← broadcasts_eq, ← List.map_take]
    constructor
    · intro payload member
      obtain ⟨broadcast, -, rfl⟩ := List.mem_map.mp member
      exact broadcast.decodable
    · rw [List.map_map, List.map_map]
      apply List.map_congr_left
      intro broadcast _
      exact (flatten_payloadChunks _ _).symm
  refine ⟨within, readsBack, fun other reads' => readsBack.unique reads', ?_⟩
  intro addr' others'
  rw [map_published]
  exact replayAll_document clients (Server.coherent_fresh addr others) rfl rfl
    chronicle.result_eq within addr' others'

/-- In every schedule of single statements, for every client whose name the roles file let
in, whatever part of its stream has arrived shows documents that the server had on the
way; and the server, when nobody holds the mutex, has the last of them. -/
theorem replicas_show_past_documents (clients : ThreadId → ClientInfo)
    (accepted : ∀ t, ∃ file,
      authLookupRole file (clients t).username.val = .ok (clients t).role)
    (addr : DocAddr) (others : OtherOps addr) (schedule : List Action) :
    let s := statementsReached clients addr others schedule
    let ledger := ledgerReached clients addr others (sections clients addr others schedule)
    let first := Server.fresh addr others
    (s.holder = none → s.shared.server.store.committedText =
      documentAfter clients first ledger.executions ledger.executions.length) ∧
      ∀ t stay reads arrived, ledger.subscriptions t = some stay →
        stay.text.length < sizeModulus → arrived <+: (s.shared.streams t).written →
          ShowsPast clients first ledger.executions (clients t).role stay.joinedAt reads
            arrived := by
  intro s ledger first
  obtain ⟨orderly, exclusive, settled, n, shows_, settles⟩ :=
    statements_serializable clients addr others schedule
  have delivered := delivered_reached clients addr others (sections clients addr others schedule)
  have chronicle := chronicle_reached clients addr others (sections clients addr others schedule)
  have words (t : ThreadId) : Word (clients t).username.val := by
    obtain ⟨file, found⟩ := accepted t
    exact accepted_username_is_word file _ _ found
  constructor
  · intro free
    have same : settled = s := settles.eq_of_free free
    rw [← same, ← shows_.server_eq, chronicle.server_eq, documentAfter, List.take_length]
  · intro t stay reads arrived subscribed fits sent
    exact showsPast_of_served words delivered chronicle subscribed fits reads
      (sent.trans (written_settled orderly exclusive settles shows_ t))

/-- The roles file lets two clients of one name in, and the second of them connects to a
document that the first has changed. -/
theorem replicas_show_past_documents_twoClients :
    let schedule : List Action :=
      [.send 0 (ascii "INSERT 0 hello\n")] ++ List.replicate 30 (.step 0) ++
        List.replicate 10 (.step 1)
    let s := statementsReached twoClients 1 ⟨[], rfl⟩ schedule
    let ledger := ledgerReached twoClients 1 ⟨[], rfl⟩ (sections twoClients 1 ⟨[], rfl⟩ schedule)
    let first := Server.fresh 1 ⟨[], rfl⟩
    (s.holder = none → s.shared.server.store.committedText =
      documentAfter twoClients first ledger.executions ledger.executions.length) ∧
      ∀ t stay reads arrived, ledger.subscriptions t = some stay →
        stay.text.length < sizeModulus → arrived <+: (s.shared.streams t).written →
          ShowsPast twoClients first ledger.executions .write stay.joinedAt reads arrived := by
  have file : authLookupRole (some (ascii "ann write")) (ascii "ann") = .ok .write := by
    have read : fgets authLineBufSize true (ascii "ann write") =
        some (some (ascii "ann write"), []) := by decide +kernel
    rw [authLookupRole, scanLines, read]
    rfl
  exact replicas_show_past_documents twoClients (fun _ => ⟨some (ascii "ann write"), file⟩) 1
    ⟨[], rfl⟩ _

end CollabMarkdown.Client
