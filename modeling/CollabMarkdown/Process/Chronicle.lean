import Mathlib.Data.List.Induction
import CollabMarkdown.CString.Lines
import CollabMarkdown.Core.Decoding
import CollabMarkdown.Process.Delivery

/-!
# The chronicle of a run

The server of a run is the fresh one after the commands executed, one after the
other: nothing else moves it.  The text a client is sent when it joins is that of
the server after the commands executed by then.
-/

namespace CollabMarkdown.Process

open CollabMarkdown.CString
open CollabMarkdown.Command
open CollabMarkdown.Core
open CollabMarkdown.Markdown
open CollabMarkdown.Transition

/-! ## What a step of the system can do -/

/-- A step is silent, or a read, or one of the four sections. -/
theorem systemStep_cases {clients : ThreadId → ClientInfo} {ledger : Ledger} {sys : System}
    (delivered : Delivered clients ledger sys) (action : Action) :
    let next := systemStep clients sys action
    (next.1.server = sys.server ∧
      ((∃ t, next.2 = .refused t) ∨ next.2 = .idle ∨
        (∃ t buffer incoming, next.2 = .read t (untilNul buffer) ∧
          (sys.threads t).phase = .serving ∧
          fgets commandLineSize (sys.threads t).hungUp (sys.threads t).incoming =
            some (some buffer, incoming)) ∨
        (∃ t, next.2 = .left t) ∨
        ∃ t, next.2 =
          .joined t sys.server.core.currentVersion sys.server.store.committedText)) ∨
      ∃ t line, (sys.threads t).phase = .holding line ∧
        next.1.server = sys.server.processed (clients t).username.val (clients t).role line ∧
        next.2 = .executed t line (sys.server.plan (clients t).role line).1
          (some (linePayload (clients t) sys.server line)) := by
  intro next
  cases action with
  | send t bytes => exact .inl ⟨rfl, .inr (.inl rfl)⟩
  | hangUp t => exact .inl ⟨rfl, .inr (.inl rfl)⟩
  | step t =>
      have next_eq : next = Id.run (threadStep clients sys t) := rfl
      rw [threadStep] at next_eq
      cases phase : (sys.threads t).phase with
      | connecting =>
          simp only [phase] at next_eq
          rcases run_connectSection clients sys t with
            ⟨-, joined⟩ | ⟨streams, -, -, refused⟩
          · rw [next_eq, joined]
            exact .inl ⟨rfl, .inr (.inr (.inr (.inr ⟨t, rfl⟩)))⟩
          · rw [next_eq, refused]
            exact .inl ⟨rfl, .inl ⟨t, rfl⟩⟩
      | serving =>
          simp only [phase, Id.run_pure] at next_eq
          left
          rcases read : fgets commandLineSize (sys.threads t).hungUp (sys.threads t).incoming with
            _ | ⟨_ | buffer, incoming⟩
          · simp [next_eq, readCommand, read]
          · simp [next_eq, readCommand, read, System.setThread]
          · by_cases quit : isQuit (untilNul buffer) = true
            · simp [next_eq, readCommand, read, quit, System.setThread]
            · have taken : next = (sys.setThread t
                  { sys.threads t with incoming, phase := .holding (untilNul buffer) },
                  .read t (untilNul buffer)) := by
                simp [next_eq, readCommand, read, quit]
              rw [taken]
              exact ⟨rfl, .inr (.inr (.inl ⟨t, buffer, incoming, rfl, phase, read⟩))⟩
      | holding line =>
          simp only [phase] at next_eq
          rw [next_eq, delivered.executeSection_eq phase]
          exact .inr ⟨t, line, phase, rfl, rfl⟩
      | leaving =>
          simp only [phase, Id.run_pure] at next_eq
          rw [next_eq, delivered.leaveSection_eq phase]
          exact .inl ⟨rfl, .inr (.inr (.inr (.inl ⟨t, rfl⟩)))⟩
      | finished =>
          simp only [phase, Id.run_pure] at next_eq
          rw [next_eq]
          exact .inl ⟨rfl, .inr (.inl rfl)⟩

/-! ## The server -/

/-- The server after a list of commands. -/
def serverAfter (clients : ThreadId → ClientInfo) (srv : Server) (executions : List Execution) :
    Server :=
  executions.foldl (fun srv execution => srv.processed (clients execution.thread).username.val
    (clients execution.thread).role execution.line) srv

theorem serverAfter_concat (clients : ThreadId → ClientInfo) (srv : Server)
    (executions : List Execution) (execution : Execution) :
    serverAfter clients srv (executions ++ [execution]) =
      (serverAfter clients srv executions).processed (clients execution.thread).username.val
        (clients execution.thread).role execution.line := by
  simp [serverAfter]

theorem serverAfter_append (clients : ThreadId → ClientInfo) (srv : Server)
    (earlier later : List Execution) :
    serverAfter clients srv (earlier ++ later) =
      serverAfter clients (serverAfter clients srv earlier) later :=
  List.foldl_append

/-- The text after the first `n` commands. -/
def documentAfter (clients : ThreadId → ClientInfo) (first : Server) (executions : List Execution)
    (n : Nat) : Text :=
  (serverAfter clients first (executions.take n)).store.committedText

/-- A server with an empty log goes on with one, and counts the commands in its
version. -/
theorem serverAfter_settled (clients : ThreadId → ClientInfo) {srv : Server}
    (coherent : srv.Coherent) (settled : srv.log = []) (executions : List Execution) :
    (serverAfter clients srv executions).Coherent ∧ (serverAfter clients srv executions).log = [] ∧
      (serverAfter clients srv executions).core.currentVersion =
        srv.core.currentVersion + UInt64.ofNat executions.length := by
  induction executions using List.reverseRecOn with
  | nil => exact ⟨coherent, settled, (UInt64.add_zero _).symm⟩
  | append_singleton earlier execution ih =>
      obtain ⟨coherent, -, version_eq⟩ := ih
      rw [serverAfter_concat]
      refine ⟨coherent.processed _ _ _, Server.log_commit _, ?_⟩
      rw [coherent.currentVersion_processed, version_eq, List.length_append, UInt64.ofNat_add,
        ← UInt64.add_assoc]
      rfl

/-! ## What is broadcast -/

/-- What is broadcast for a list of commands, the first of them with the number `n`. -/
def published (clients : ThreadId → ClientInfo) :
    Nat → List Execution → List (UInt64 × List EditLogEntry)
  | _, [] => []
  | n, execution :: rest =>
      (UInt64.ofNat (n + 1), [execution.entry clients]) :: published clients (n + 1) rest

/-- The payloads that the server printed for a list of commands. -/
theorem payloads_published {clients : ThreadId → ClientInfo} {n : Nat}
    {executions : List Execution}
    (numbered : ∀ i execution, executions[i]? = some execution → execution.payload =
      some (payloadText (UInt64.ofNat (n + i + 1)) [execution.entry clients])) :
    executions.map (·.payload.getD []) =
      (published clients n executions).map fun payload => payloadText payload.1 payload.2 := by
  induction executions generalizing n with
  | nil => rfl
  | cons execution rest ih =>
      have first := numbered 0 execution rfl
      have later := ih (n := n + 1) fun i other found => by
        have shifted := numbered (i + 1) other found
        rwa [show n + (i + 1) + 1 = n + 1 + i + 1 by omega] at shifted
      simp only [List.map_cons, published, later, first, Option.getD_some, Nat.add_zero]

/-- The payloads of a stay. -/
theorem Delivered.payloads_eq {clients : ThreadId → ClientInfo} {ledger : Ledger} {sys : System}
    (delivered : Delivered clients ledger sys) (stay : Subscription) :
    stay.payloads ledger.executions =
      (published clients stay.joinedAt
        ((ledger.executions.take (stay.endsAt ledger.executions)).drop stay.joinedAt)).map
          fun payload => payloadText payload.1 payload.2 := by
  refine payloads_published ?_
  intro i execution during
  rw [List.getElem?_drop, List.getElem?_take] at during
  split at during
  · exact delivered.numbered _ execution during
  · contradiction

/-! ## The invariant -/

/-- What the ledger says of the server: it is the first one after the commands, each
with the result it had then, and the text of a snapshot is that of its moment. -/
structure Chronicle (clients : ThreadId → ClientInfo) (first : Server) (ledger : Ledger)
    (sys : System) : Prop where
  server_eq : sys.server = serverAfter clients first ledger.executions
  result_eq : ∀ n execution, ledger.executions[n]? = some execution →
    execution.result = ((serverAfter clients first (ledger.executions.take n)).plan
      (clients execution.thread).role execution.line).1
  lines : ∀ t, ∀ line ∈ ledger.reads t, ReadLine line
  text_eq : ∀ t stay, ledger.subscriptions t = some stay →
    stay.joinedAt ≤ ledger.executions.length ∧
      stay.text = (serverAfter clients first
        (ledger.executions.take stay.joinedAt)).store.committedText

namespace Chronicle

variable {clients : ThreadId → ClientInfo} {first : Server} {ledger : Ledger} {sys sys' : System}

theorem start (addr : DocAddr) (others : OtherOps addr) :
    Chronicle clients (Server.fresh addr others) Ledger.empty (System.start addr others) where
  server_eq := rfl
  result_eq n execution found := by simp [Ledger.empty] at found
  lines t line member := absurd member List.not_mem_nil
  text_eq t stay found := by simp [Ledger.empty] at found

theorem still (chronicle : Chronicle clients first ledger sys)
    (server_eq : sys'.server = sys.server) : Chronicle clients first ledger sys' where
  server_eq := server_eq.trans chronicle.server_eq
  result_eq := chronicle.result_eq
  lines := chronicle.lines
  text_eq := chronicle.text_eq

theorem read (chronicle : Chronicle clients first ledger sys)
    (server_eq : sys'.server = sys.server) (t : ThreadId) {line : Text} (good : ReadLine line) :
    Chronicle clients first (ledger.record (.read t line)) sys' where
  server_eq := server_eq.trans chronicle.server_eq
  result_eq := chronicle.result_eq
  lines other text member := by
    by_cases here : other = t
    · subst here
      simp only [Ledger.record, Function.update_self, List.mem_append, List.mem_singleton] at member
      rcases member with older | rfl
      · exact chronicle.lines other text older
      · exact good
    · simp only [Ledger.record, Function.update_of_ne here] at member
      exact chronicle.lines other text member
  text_eq := chronicle.text_eq

theorem joined (chronicle : Chronicle clients first ledger sys)
    (server_eq : sys'.server = sys.server) (t : ThreadId) (version : UInt64) :
    Chronicle clients first
      (ledger.record (.joined t version sys.server.store.committedText)) sys' where
  server_eq := server_eq.trans chronicle.server_eq
  result_eq := chronicle.result_eq
  lines := chronicle.lines
  text_eq other stay found := by
    by_cases here : other = t
    · subst here
      simp only [Ledger.record, Function.update_self, Option.some.injEq] at found
      subst found
      refine ⟨Nat.le_refl _, ?_⟩
      simp only [Ledger.record, List.take_length, chronicle.server_eq]
    · simp only [Ledger.record, Function.update_of_ne here] at found
      exact chronicle.text_eq other stay found

theorem left (chronicle : Chronicle clients first ledger sys)
    (server_eq : sys'.server = sys.server) (t : ThreadId) :
    Chronicle clients first (ledger.record (.left t)) sys' where
  server_eq := server_eq.trans chronicle.server_eq
  result_eq := chronicle.result_eq
  lines := chronicle.lines
  text_eq other stay found := by
    by_cases here : other = t
    · subst here
      simp only [Ledger.record, Function.update_self, Option.map_eq_some_iff] at found
      obtain ⟨before, subscribed, rfl⟩ := found
      exact chronicle.text_eq other before subscribed
    · simp only [Ledger.record, Function.update_of_ne here] at found
      exact chronicle.text_eq other stay found

theorem executed (chronicle : Chronicle clients first ledger sys) {t : ThreadId} {line : Text}
    (server_eq :
      sys'.server = sys.server.processed (clients t).username.val (clients t).role line)
    (payload : Option Text) :
    Chronicle clients first
      (ledger.record (.executed t line (sys.server.plan (clients t).role line).1 payload))
      sys' where
  server_eq := by
    rw [server_eq, chronicle.server_eq, Ledger.record, serverAfter_concat]
  result_eq n execution found := by
    rw [Ledger.record, List.getElem?_append] at found
    by_cases older : n < ledger.executions.length
    · rw [if_pos older] at found
      rw [Ledger.record, List.take_append_of_le_length (Nat.le_of_lt older)]
      exact chronicle.result_eq n execution found
    · rw [if_neg older, List.getElem?_singleton] at found
      split at found
      · have last : n = ledger.executions.length := by omega
        cases found
        rw [last, Ledger.record, List.take_left, ← chronicle.server_eq]
      · cases found
  lines := chronicle.lines
  text_eq other stay found := by
    obtain ⟨begun, text⟩ := chronicle.text_eq other stay found
    rw [Ledger.record, List.length_append, List.take_append_of_le_length begun]
    exact ⟨by omega, text⟩

theorem step (chronicle : Chronicle clients first ledger sys)
    (delivered : Delivered clients ledger sys) (action : Action) :
    Chronicle clients first (ledger.record (systemStep clients sys action).2)
      (systemStep clients sys action).1 := by
  rcases systemStep_cases delivered action with
    ⟨same, ⟨t, refused⟩ | idle | ⟨t, buffer, incoming, taken, -, read⟩ | ⟨t, left⟩ | ⟨t, joined⟩⟩ |
      ⟨t, line, -, processed, executed⟩
  · rw [refused]
    exact chronicle.still same
  · rw [idle]
    exact chronicle.still same
  · rw [taken]
    exact chronicle.read same t (readLine_of_fgets read)
  · rw [left]
    exact chronicle.left same t
  · rw [joined]
    exact chronicle.joined same t _
  · rw [executed]
    exact chronicle.executed processed _

/-- An executed line has been read. -/
theorem line_executed (chronicle : Chronicle clients first ledger sys)
    (delivered : Delivered clients ledger sys) {execution : Execution}
    (member : execution ∈ ledger.executions) : ReadLine execution.line := by
  apply chronicle.lines execution.thread
  rw [← (delivered.tracked execution.thread).lines_eq]
  apply List.mem_append_left
  exact List.mem_map.mpr ⟨execution, List.mem_filter.mpr ⟨member, decide_eq_true rfl⟩, rfl⟩

end Chronicle

theorem chronicle_reached (clients : ThreadId → ClientInfo) (addr : DocAddr)
    (others : OtherOps addr) (actions : List Action) :
    Chronicle clients (Server.fresh addr others) (ledgerReached clients addr others actions)
      (systemReached clients addr others actions) := by
  apply (run_history (systemStep clients)
    (fun history sys => Delivered clients (Ledger.ofEvents history) sys ∧
      Chronicle clients (Server.fresh addr others) (Ledger.ofEvents history) sys)
    ?_ ⟨delivered_start clients addr others, Chronicle.start addr others⟩ actions).2
  rintro history sys action ⟨delivered, chronicle⟩
  have recorded : Ledger.ofEvents (history ++ [(systemStep clients sys action).2]) =
      (Ledger.ofEvents history).record (systemStep clients sys action).2 := by
    simp [Ledger.ofEvents]
  rw [recorded]
  exact ⟨delivered.step action, chronicle.step delivered action⟩

end CollabMarkdown.Process
