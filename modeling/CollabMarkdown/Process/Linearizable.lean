import CollabMarkdown.Core.Editor
import CollabMarkdown.Process.Atomicity
import CollabMarkdown.Process.Chronicle
import CollabMarkdown.Process.CommandLines

/-!
# The server as one editor

The threads take single statements, in any order.  To the clients they are one text
editor that is told one command at a time.  The history of a schedule is the list of
commands told, in the order in which the threads took the mutex for them; it explains
the answers, the document and all that any client has been sent.  What is scheduled
later adds to it at the end.  So a command that a client sends after some effect of
another one has shown anywhere stands behind that one.
-/

namespace CollabMarkdown.Process

open CollabMarkdown.CString
open CollabMarkdown.Command
open CollabMarkdown.Core
open CollabMarkdown.Markdown
open CollabMarkdown.Transition
open CollabMarkdown.Transition.LockedProgram

/-! ## Clients that are not registered -/

/-- The section that connects a client registers it, or closes the stream on which it
has sent the document. -/
theorem connectSection_cases (clients : ThreadId → ClientInfo) (sys : System) (t : ThreadId) :
    let sent := Function.update sys.streams t ((sys.streams t).send
      (initialDocument (clients t).role sys.server.core.currentVersion
        sys.server.store.committedText))
    Id.run (connectSection clients sys t) = ((sys.join (clients t) t).setPhase t .serving,
        .joined t sys.server.core.currentVersion sys.server.store.committedText) ∨
      Id.run (connectSection clients sys t) =
        ({ sys with streams := fclose sent t }.setPhase t .finished, .refused t) := by
  cases found : clientRegistryFind sys.registry (clients t).pid with
  | none =>
      left
      simp only [connectSection, Id.run_bind, run_sendInitialDocument, Bool.not_true,
        Bool.false_eq_true, if_false, run_clientRegistryAdd, found, Option.isSome_none]
      rfl
  | some conn =>
      right
      simp only [connectSection, Id.run_bind, run_sendInitialDocument, Bool.not_true,
        Bool.false_eq_true, if_false, run_clientRegistryAdd, found, Option.isSome_some,
        if_true, Bool.not_false]
      rfl

/-- A stream carries nothing, or the document of one moment and no more. -/
def OneDocument (clients : ThreadId → ClientInfo) (first : Server) (executions : List Execution)
    (role : UserRole) (written : Text) : Prop :=
  written = [] ∨ ∃ n ≤ executions.length,
    written = initialDocument role (UInt64.ofNat n) (documentAfter clients first executions n)

theorem OneDocument.append {clients : ThreadId → ClientInfo} {first : Server}
    {executions : List Execution} {role : UserRole} {written : Text}
    (shown : OneDocument clients first executions role written) (later : List Execution) :
    OneDocument clients first (executions ++ later) role written := by
  rcases shown with nothing | ⟨n, bound, text⟩
  · exact .inl nothing
  · refine .inr ⟨n, by rw [List.length_append]; omega, ?_⟩
    rw [text, documentAfter, documentAfter, List.take_append_of_le_length bound]

/-- A thread that is not subscribed has read nothing, and has been sent one document at
most. -/
structure Unsubscribed (clients : ThreadId → ClientInfo) (first : Server) (ledger : Ledger)
    (sys : System) (t : ThreadId) : Prop where
  unread : ledger.reads t = []
  shown : OneDocument clients first ledger.executions (clients t).role (sys.streams t).written

namespace Unsubscribed

variable {clients : ThreadId → ClientInfo} {first : Server} {ledger ledger' : Ledger}
  {sys sys' : System} {t : ThreadId}

theorem frame (unsubscribed : Unsubscribed clients first ledger sys t)
    (reads_eq : ledger'.reads t = ledger.reads t)
    (extended : ∃ later, ledger'.executions = ledger.executions ++ later)
    (stream_eq : (sys'.streams t).written = (sys.streams t).written) :
    Unsubscribed clients first ledger' sys' t where
  unread := reads_eq.trans unsubscribed.unread
  shown := by
    obtain ⟨later, executions_eq⟩ := extended
    rw [stream_eq, executions_eq]
    exact unsubscribed.shown.append later

/-- A thread in one of its connected phases is subscribed. -/
theorem not_connected (delivered : Delivered clients ledger sys)
    (absent : ledger.subscriptions t = none) : (sys.threads t).phase.connected = false := by
  by_contra connected
  obtain ⟨stay, found, -⟩ :=
    (delivered.tracked t).subscribed_iff.mp (by simpa using connected)
  rw [absent] at found
  cases found

/-- A thread that is refused has been sent the document of the moment. -/
theorem refused (unread : ledger.reads t = []) (delivered : Delivered clients ledger sys)
    (chronicle : Chronicle clients first ledger sys)
    (connecting : (sys.threads t).phase = .connecting) :
    let sent := Function.update sys.streams t ((sys.streams t).send
      (initialDocument (clients t).role sys.server.core.currentVersion
        sys.server.store.committedText))
    Unsubscribed clients first ledger
      ({ sys with streams := fclose sent t }.setPhase t .finished) t := by
  intro sent
  obtain ⟨-, unwritten⟩ := (delivered.tracked t).untouched connecting
  refine ⟨unread, .inr ⟨_, Nat.le_refl _, ?_⟩⟩
  rw [documentAfter, List.take_length, ← chronicle.server_eq, ← delivered.version_eq]
  simp [sent, fclose, OutStream.send, OutStream.buffer, OutStream.drain, unwritten,
    (delivered.tracked t).drained]

/-- One step, for all threads. -/
theorem step (unsubscribed : ∀ u, ledger.subscriptions u = none →
      Unsubscribed clients first ledger sys u)
    (delivered : Delivered clients ledger sys) (chronicle : Chronicle clients first ledger sys)
    (action : Action) :
    ∀ u, (ledger.record (systemStep clients sys action).2).subscriptions u = none →
      Unsubscribed clients first (ledger.record (systemStep clients sys action).2)
        (systemStep clients sys action).1 u := by
  intro u
  have same : ∃ later, ledger.executions = ledger.executions ++ later :=
    ⟨[], (List.append_nil _).symm⟩
  cases action with
  | send t bytes => exact fun absent => (unsubscribed u absent).frame rfl same rfl
  | hangUp t => exact fun absent => (unsubscribed u absent).frame rfl same rfl
  | step t =>
      rw [systemStep, threadStep]
      cases phase : (sys.threads t).phase with
      | connecting =>
          rcases connectSection_cases clients sys t with joined | refused
          · simp only [joined]
            intro absent
            by_cases here : u = t
            · subst here
              simp [Ledger.record] at absent
            · simp only [Ledger.record, Function.update_of_ne here] at absent
              refine (unsubscribed u absent).frame rfl same ?_
              simp [System.join, here]
          · simp only [refused]
            intro absent
            by_cases here : u = t
            · subst here
              exact .refused (unsubscribed u absent).unread delivered chronicle phase
            · refine (unsubscribed u absent).frame rfl same ?_
              simp [fclose, here]
      | serving =>
          have connected : (sys.threads t).phase.connected = true :=
            congrArg Phase.connected phase
          simp only [Id.run_pure]
          rcases readCommand_cases sys t with
            blocked | ⟨incoming, ended⟩ | ⟨incoming, line, -, taken⟩
          · rw [blocked]
            exact fun absent => (unsubscribed u absent).frame rfl same rfl
          · rw [ended]
            exact fun absent => (unsubscribed u absent).frame rfl same rfl
          · rw [taken]
            intro absent
            have here : u ≠ t := by
              rintro rfl
              rw [not_connected delivered absent] at connected
              contradiction
            exact (unsubscribed u absent).frame (Function.update_of_ne here ..) same rfl
      | holding line =>
          simp only [delivered.executeSection_eq phase]
          intro absent
          have unregistered : u ∉ sys.registered := by
            rw [(delivered.tracked u).registered_iff, not_connected delivered absent]
            exact Bool.false_ne_true
          refine (unsubscribed u absent).frame rfl ⟨[_], rfl⟩ ?_
          simp [System.execute, unregistered]
      | leaving =>
          have connected : (sys.threads t).phase.connected = true :=
            congrArg Phase.connected phase
          simp only [delivered.leaveSection_eq phase, Id.run_pure]
          intro absent
          by_cases here : u = t
          · subst here
            obtain ⟨stay, found, -⟩ := (delivered.tracked u).subscribed_iff.mp connected
            simp [Ledger.record, found] at absent
          · simp only [Ledger.record, Function.update_of_ne here] at absent
            refine (unsubscribed u absent).frame rfl same ?_
            simp [System.leave, fclose, here]
      | finished => exact fun absent => (unsubscribed u absent).frame rfl same rfl

end Unsubscribed

/-- Throughout a run the server is chronicled, and so are the threads that are not
subscribed. -/
theorem unsubscribed_reached (clients : ThreadId → ClientInfo) (addr : DocAddr)
    (others : OtherOps addr) (actions : List Action) :
    ∀ t, (ledgerReached clients addr others actions).subscriptions t = none →
      Unsubscribed clients (Server.fresh addr others) (ledgerReached clients addr others actions)
        (systemReached clients addr others actions) t := by
  apply (run_history (systemStep clients)
    (fun history sys => Delivered clients (Ledger.ofEvents history) sys ∧
      Chronicle clients (Server.fresh addr others) (Ledger.ofEvents history) sys ∧
        ∀ t, (Ledger.ofEvents history).subscriptions t = none →
          Unsubscribed clients (Server.fresh addr others) (Ledger.ofEvents history) sys t)
    ?_ ⟨delivered_start clients addr others, Chronicle.start addr others,
      fun t _ => ⟨rfl, .inl rfl⟩⟩ actions).2.2
  rintro history sys action ⟨delivered, chronicle, unsubscribed⟩
  have recorded : Ledger.ofEvents (history ++ [(systemStep clients sys action).2]) =
      (Ledger.ofEvents history).record (systemStep clients sys action).2 := by
    simp [Ledger.ofEvents]
  rw [recorded]
  exact ⟨delivered.step action, chronicle.step delivered action,
    Unsubscribed.step unsubscribed delivered chronicle action⟩

/-! ## What clients do -/

theorem sentBy_filter (t : ThreadId) (actions : List Action) :
    sentBy t (actions.filter (·.actor.isNone)) = sentBy t actions := by
  induction actions with
  | nil => rfl
  | cons action rest ih => cases action <;> simpa [sentBy, Action.actor] using ih

theorem closesLast_filter (t : ThreadId) (actions : List Action) :
    ClosesLast t (actions.filter (·.actor.isNone)) ↔ ClosesLast t actions := by
  induction actions with
  | nil => exact Iff.rfl
  | cons action rest ih =>
      cases action with
      | step u =>
          rw [List.filter_cons_of_neg Bool.false_ne_true, ih]
          exact (and_iff_right fun same => by contradiction).symm
      | send u bytes =>
          rw [List.filter_cons_of_pos rfl, ClosesLast, ClosesLast, ih, sentBy_filter]
      | hangUp u =>
          rw [List.filter_cons_of_pos rfl, ClosesLast, ClosesLast, ih, sentBy_filter]

section

variable (clients : ThreadId → ClientInfo) (addr : DocAddr) (others : OtherOps addr)
  (schedule : List Action)

theorem filter_sections :
    (sections clients addr others schedule).filter (·.actor.isNone) =
      schedule.filter (·.actor.isNone) :=
  filter_serialized (serverThreads clients) _ _

theorem sentBy_sections (t : ThreadId) :
    sentBy t (sections clients addr others schedule) = sentBy t schedule := by
  rw [← sentBy_filter, filter_sections, sentBy_filter]

theorem closesLast_sections (t : ThreadId) :
    ClosesLast t (sections clients addr others schedule) ↔ ClosesLast t schedule := by
  rw [← closesLast_filter, filter_sections, closesLast_filter]

end

/-- The lines a thread has executed are the first ones its loop makes of what it has
been sent. -/
theorem linesOf_prefix (clients : ThreadId → ClientInfo) (addr : DocAddr)
    (others : OtherOps addr) {actions : List Action} {t : ThreadId}
    (closesLast : ClosesLast t actions) :
    linesOf t (ledgerReached clients addr others actions).executions <+:
      (commandLoop (sentBy t actions)).1 := by
  have reading := readingIn_reached clients addr others closesLast
  have delivered := delivered_reached clients addr others actions
  have read : linesOf t (ledgerReached clients addr others actions).executions <+:
      (ledgerReached clients addr others actions).reads t :=
    ⟨_, (delivered.tracked t).lines_eq⟩
  refine read.trans ?_
  by_cases goesOn : ((systemReached clients addr others actions).threads t).phase.reading = true
  · rw [reading.goesOn goesOn]
    exact List.prefix_append _ _
  · by_cases joined : (ledgerReached clients addr others actions).subscriptions t = none
    · rw [(unsubscribed_reached clients addr others actions t joined).unread]
      exact List.nil_prefix
    · rw [reading.stopped (by simpa using goesOn) joined]

/-! ## Histories -/

/-- The commands of a schedule, in the order in which the threads took the mutex for
them. -/
def history (clients : ThreadId → ClientInfo) (addr : DocAddr) (others : OtherOps addr)
    (schedule : List Action) : List Execution :=
  (ledgerReached clients addr others (sections clients addr others schedule)).executions

/-- Recording events adds commands at the end. -/
theorem executions_prefix_foldl (ledger : Ledger) (events : List ServerEvent) :
    ledger.executions <+: (events.foldl Ledger.record ledger).executions := by
  induction events generalizing ledger with
  | nil => exact List.prefix_rfl
  | cons event rest ih =>
      refine List.IsPrefix.trans ?_ (ih _)
      cases event with
      | executed t line result payload => exact List.prefix_append _ _
      | _ => exact List.prefix_rfl

/-- What is scheduled later leaves the history so far. -/
theorem history_append (clients : ThreadId → ClientInfo) (addr : DocAddr)
    (others : OtherOps addr) (earlier later : List Action) :
    history clients addr others earlier <+: history clients addr others (earlier ++ later) := by
  rw [history, history, sections, sections, serialized_append, ledgerReached, ledgerReached,
    run_append, Ledger.ofEvents, Ledger.ofEvents, List.foldl_append]
  exact executions_prefix_foldl _ _

/-- A command as an editor is told it. -/
def Execution.command (clients : ThreadId → ClientInfo) (execution : Execution) :
    UserRole × Text :=
  ((clients execution.thread).role, execution.line)

/-- The text of an editor that starts with an empty one and is told some commands. -/
def editorText (clients : ThreadId → ClientInfo) (executions : List Execution) : Text :=
  (run editorStep [] (executions.map (·.command clients))).1

/-- The texts on the way can be held in memory. -/
def FitsMemory (clients : ThreadId → ClientInfo) (executions : List Execution) : Prop :=
  ∀ n ≤ executions.length, (editorText clients (executions.take n)).length < sizeModulus

instance (clients : ThreadId → ClientInfo) (executions : List Execution) :
    Decidable (FitsMemory clients executions) :=
  inferInstanceAs (Decidable (∀ n ≤ _, _))

/-- A history explains what is seen of a state, when the clients have sent certain bytes:
the commands of a client in it are lines the client has sent, in that order; their
results, the document and what each client has been sent are those of an editor, which
knows of no versions and no deleted positions; and what a client has been sent is a
document of the history and the payloads behind it, or part of them. -/
structure Explains (clients : ThreadId → ClientInfo) (executions : List Execution)
    (sent : ThreadId → Text) (s : LockedState ThreadId Point Shared) : Prop where
  submitted : ∀ t, linesOf t executions <+: (commandLoop (sent t)).1
  answered : ∀ n execution, executions[n]? = some execution → execution.result =
    (editorStep (editorText clients (executions.take n)) (execution.command clients)).2
  timeless : ∀ execution ∈ executions,
    execution.result ≠ .rejectOutdatedVersion ∧ execution.result ≠ .rejectDeletedPosition
  document_eq : s.holder = none →
    s.shared.server.store.committedText = editorText clients executions
  shown : ∀ t, ∃ joinedAt endsAt, joinedAt ≤ endsAt ∧ endsAt ≤ executions.length ∧
    (s.shared.streams t).written <+:
      initialDocument (clients t).role (UInt64.ofNat joinedAt)
          (editorText clients (executions.take joinedAt)) ++
        (published clients joinedAt ((executions.take endsAt).drop joinedAt)).flatMap
          fun payload => payloadText payload.1 payload.2

theorem editorText_concat (clients : ThreadId → ClientInfo) (executions : List Execution)
    (execution : Execution) :
    editorText clients (executions ++ [execution]) =
      (editorStep (editorText clients executions) (execution.command clients)).1 := by
  rw [editorText, List.map_append, run_append]
  rfl

section

variable {clients : ThreadId → ClientInfo} {ledger : Ledger} {sys : System}

/-- The documents of a history are those of an editor. -/
theorem documentAfter_eq_editorText (addr : DocAddr) (others : OtherOps addr)
    {executions : List Execution} (fits : FitsMemory clients executions) {n : Nat}
    (bound : n ≤ executions.length) :
    documentAfter clients (Server.fresh addr others) executions n =
      editorText clients (executions.take n) := by
  induction n with
  | zero => rfl
  | succ n ih =>
      have same := ih (Nat.le_of_succ_le bound)
      have small := fits n (Nat.le_of_succ_le bound)
      obtain ⟨coherent, settled, -⟩ := serverAfter_settled clients
        (Server.coherent_fresh addr others) rfl (executions.take n)
      rw [← same] at small
      have edited := coherent.editorStep_processed settled small
        (clients executions[n].thread).username.val (clients executions[n].thread).role
        executions[n].line
      have next : executions.take (n + 1) = executions.take n ++ [executions[n]] :=
        List.take_succ_eq_append_getElem bound
      rw [documentAfter, next, serverAfter_concat, editorText_concat, ← same]
      exact congrArg Prod.fst edited

variable {addr : DocAddr} {others : OtherOps addr}

/-- So are the results. -/
theorem result_eq_editorStep (chronicle : Chronicle clients (Server.fresh addr others) ledger sys)
    (fits : FitsMemory clients ledger.executions) {n : Nat} {execution : Execution}
    (found : ledger.executions[n]? = some execution) :
    execution.result = (editorStep (editorText clients (ledger.executions.take n))
      (execution.command clients)).2 := by
  have bound : n ≤ ledger.executions.length :=
    Nat.le_of_lt (List.getElem?_eq_some_iff.mp found).1
  have same := documentAfter_eq_editorText addr others fits bound
  have small := fits n bound
  obtain ⟨coherent, settled, -⟩ := serverAfter_settled clients
    (Server.coherent_fresh addr others) rfl (ledger.executions.take n)
  rw [← same] at small ⊢
  rw [chronicle.result_eq n execution found]
  exact congrArg Prod.snd (coherent.editorStep_processed settled small
    (clients execution.thread).username.val (clients execution.thread).role execution.line)

/-- What a thread has been sent is a document of the history and payloads behind it. -/
theorem shown_of_delivered (delivered : Delivered clients ledger sys)
    (chronicle : Chronicle clients (Server.fresh addr others) ledger sys)
    (unsubscribed : ∀ t, ledger.subscriptions t = none →
      Unsubscribed clients (Server.fresh addr others) ledger sys t)
    (fits : FitsMemory clients ledger.executions) (t : ThreadId) :
    ∃ joinedAt endsAt, joinedAt ≤ endsAt ∧ endsAt ≤ ledger.executions.length ∧
      (sys.streams t).written <+:
        initialDocument (clients t).role (UInt64.ofNat joinedAt)
            (editorText clients (ledger.executions.take joinedAt)) ++
          (published clients joinedAt ((ledger.executions.take endsAt).drop joinedAt)).flatMap
            fun payload => payloadText payload.1 payload.2 := by
  cases subscribed : ledger.subscriptions t with
  | none =>
      rcases (unsubscribed t subscribed).shown with nothing | ⟨n, bound, text⟩
      · rw [nothing]
        exact ⟨0, 0, Nat.le_refl _, Nat.zero_le _, List.nil_prefix⟩
      · rw [text, documentAfter_eq_editorText addr others fits bound]
        exact ⟨n, n, Nat.le_refl _, bound, List.prefix_append _ _⟩
  | some stay =>
      obtain ⟨version_eq, joinedAt_le, endsAt_le, written_eq⟩ :=
        (delivered.tracked t).served stay subscribed
      obtain ⟨begun, text_eq⟩ := chronicle.text_eq t stay subscribed
      refine ⟨stay.joinedAt, _, joinedAt_le, endsAt_le, ?_⟩
      rw [written_eq, version_eq, text_eq, ← documentAfter_eq_editorText addr others fits begun,
        delivered.payloads_eq, List.flatMap_def]
      exact List.prefix_rfl

end

/-- The server is an editor that is told one command at a time.  For every schedule of
single statements, its history explains all that is seen; and the history of a longer
schedule goes on from it. -/
theorem server_is_linearizable (clients : ThreadId → ClientInfo) (addr : DocAddr)
    (others : OtherOps addr) :
    let history := history clients addr others
    (∀ schedule, (∀ t, ClosesLast t schedule) → FitsMemory clients (history schedule) →
      Explains clients (history schedule) (sentBy · schedule)
        (statementsReached clients addr others schedule)) ∧
      ∀ earlier later, history earlier <+: history (earlier ++ later) := by
  intro history
  constructor
  · intro schedule closesLast fits
    have delivered := delivered_reached clients addr others (sections clients addr others schedule)
    have chronicle := chronicle_reached clients addr others (sections clients addr others schedule)
    have unsubscribed :=
      unsubscribed_reached clients addr others (sections clients addr others schedule)
    obtain ⟨orderly, exclusive, settled, n, shows_, settles⟩ :=
      statements_serializable clients addr others schedule
    constructor
    · intro t
      rw [← sentBy_sections clients addr others]
      exact linesOf_prefix clients addr others
        ((closesLast_sections clients addr others schedule t).mpr (closesLast t))
    · intro n execution found
      exact result_eq_editorStep chronicle fits found
    · intro execution member
      obtain ⟨n, found⟩ := List.mem_iff_getElem?.mp member
      rw [result_eq_editorStep chronicle fits found]
      exact editorStep_answer _ _
    · intro free
      have same := settles.eq_of_free free
      have whole := documentAfter_eq_editorText addr others fits (Nat.le_refl _)
      rw [List.take_length] at whole
      rw [← whole, ← same, ← shows_.server_eq, chronicle.server_eq, documentAfter,
        List.take_length]
      rfl
    · intro t
      obtain ⟨joinedAt, endsAt, ordered, bound, sent⟩ :=
        shown_of_delivered delivered chronicle unsubscribed fits t
      exact ⟨joinedAt, endsAt, ordered, bound,
        (written_settled orderly exclusive settles shows_ t).trans sent⟩
  · intro earlier later
    exact history_append clients addr others earlier later

/-- One client edits and another one connects. -/
theorem server_is_linearizable_twoClients :
    let schedule : List Action :=
      [.send 0 (ascii "INSERT 0 hello\n")] ++ List.replicate 30 (.step 0) ++
        List.replicate 10 (.step 1)
    Explains twoClients (history twoClients 1 ⟨[], rfl⟩ schedule) (sentBy · schedule)
      (statementsReached twoClients 1 ⟨[], rfl⟩ schedule) :=
  (server_is_linearizable twoClients 1 ⟨[], rfl⟩).1 _
    (fun t => by simp [ClosesLast, List.replicate]) (by decide +kernel)

end CollabMarkdown.Process
