import CollabMarkdown.Process.Following
import CollabMarkdown.Process.Linearizable
import CollabMarkdown.Transition.FairMutex

/-!
# Every line is executed

If no thread is stopped in its section and the mutex does not pass over a thread for ever,
each line that the client of the thread sends is executed, all who are registered are sent
the result, and the thread comes to its end when the session does.
-/

namespace CollabMarkdown.Process

open CollabMarkdown.CString
open CollabMarkdown.Command
open CollabMarkdown.Core
open CollabMarkdown.Markdown
open CollabMarkdown.Transition
open CollabMarkdown.Transition.LockedProgram

/-! ## Progress -/

/-- Each line read and each one executed counts, and so does each phase of the thread. -/
def progress (thread : ClientThread) (reads : List Text) : Nat :=
  2 * reads.length + match thread.phase with
    | .connecting | .holding _ => 0
    | .serving => 1
    | .leaving => 2
    | .finished => 3

/-- A thread steps on, unless it waits for its client or is through. -/
theorem LoopStep.progress {thread thread' : ClientThread} {reads reads' : List Text}
    (moved : LoopStep thread reads thread' reads') :
    progress thread reads < progress thread' reads' ∨
      (thread' = thread ∧ reads' = reads) ∧
        (thread.phase = .serving ∧
            fgets commandLineSize thread.hungUp thread.incoming = none ∨
          thread.phase = .finished) := by
  cases moved with
  | connect connecting entered =>
      rcases entered with rfl | rfl <;> simp [Process.progress, connecting]
  | wait serving blocked => exact .inr ⟨⟨rfl, rfl⟩, .inl ⟨serving, blocked⟩⟩
  | stop serving => simp [Process.progress, serving]
  | take serving read command =>
      left
      simp only [Process.progress, serving, List.length_append, List.length_singleton]
      omega
  | execute holding => simp [Process.progress, holding]
  | leave leaving => simp [Process.progress, leaving]
  | rest finished => exact .inr ⟨⟨rfl, rfl⟩, .inr finished⟩

/-! ## Threads that are through -/

section

variable (clients : ThreadId → ClientInfo) (addr : DocAddr) (others : OtherOps addr)

variable {clients addr others}

/-- A section turns a client away only if its pid is registered. -/
theorem Delivered.pid_of_refused {ledger : Ledger} {sys : System}
    (delivered : Delivered clients ledger sys) {t : ThreadId}
    (connecting : (sys.threads t).phase = .connecting)
    (finished : ((Id.run (connectSection clients sys t)).1.threads t).phase = .finished) :
    ∃ u, u ≠ t ∧ (clients u).pid = (clients t).pid := by
  cases found : clientRegistryFind sys.registry (clients t).pid with
  | none =>
      simp only [connectSection, Id.run_bind, run_sendInitialDocument, Bool.not_true,
        Bool.false_eq_true, if_false, run_clientRegistryAdd, found, Option.isSome_none,
        Id.run_pure, System.phase_setPhase] at finished
      contradiction
  | some conn =>
      have member : conn ∈ sys.registry.head := List.mem_of_find?_eq_some found
      have same : conn.pid = (clients t).pid := by simpa using List.find?_some found
      refine ⟨conn.outStream, ?_, (delivered.owned.pid_eq conn member).symm.trans same⟩
      rintro rfl
      have connected := (delivered.tracked _).registered_iff.mp (List.mem_map_of_mem member)
      rw [connecting] at connected
      contradiction

variable (clients addr others)

/-- That happens only to a client whose pid another client has too. -/
theorem TurnedAway.pid_eq {t : ThreadId} {actions : List Action}
    (away : TurnedAway clients addr others t actions) :
    ∃ u, u ≠ t ∧ (clients u).pid = (clients t).pid := by
  obtain ⟨finished, unsubscribed⟩ := away
  induction actions using List.reverseRecOn with
  | nil => contradiction
  | append_singleton actions action ih =>
      have delivered := delivered_reached clients addr others actions
      rw [systemReached_concat] at finished
      rw [ledgerReached_concat] at unsubscribed
      by_cases own : action = .step t
      · subst own
        rw [systemStep, threadStep] at finished unsubscribed
        cases phase : ((systemReached clients addr others actions).threads t).phase with
        | connecting =>
            simp only [phase] at finished
            exact delivered.pid_of_refused phase finished
        | serving =>
            simp only [phase, Id.run_pure] at finished
            rcases readCommand_cases (systemReached clients addr others actions) t with
              blocked | ⟨incoming, ended⟩ | ⟨incoming, line, -, taken⟩
            · rw [blocked, phase] at finished
              contradiction
            · rw [ended] at finished
              simp [System.setThread] at finished
            · rw [taken] at finished
              simp [System.setThread] at finished
        | holding line =>
            simp only [phase, delivered.executeSection_eq phase,
              System.phase_setPhase] at finished
            contradiction
        | leaving =>
            have connected : ((systemReached clients addr others actions).threads
                t).phase.connected = true := congrArg Phase.connected phase
            obtain ⟨stay, subscribed, -⟩ :=
              (delivered.tracked t).subscribed_iff.mp connected
            simp [phase, delivered.leaveSection_eq phase, Ledger.record,
              subscribed] at unsubscribed
        | finished =>
            simp only [phase, Id.run_pure] at unsubscribed
            exact ih phase unsubscribed
      · obtain ⟨thread_eq, -, subscription_eq⟩ := threads_systemStep delivered own
        rw [thread_eq] at finished
        rw [subscription_eq] at unsubscribed
        exact ih finished unsubscribed

/-- Of all that was sent, these lines are executed; and the thread is through if the session
is. -/
structure Caught (t : ThreadId) (closed : Bool) (sent : Text) (actions : List Action) : Prop where
  executed : (readyLoop closed sent).1 <+:
    linesOf t (ledgerReached clients addr others actions).executions
  ended : (closed || (readyLoop closed sent).2) = true →
    ((systemReached clients addr others actions).threads t).phase = .finished

variable {clients addr others} {t : ThreadId} {actions : List Action}

/-- What holds of all that was sent holds of what was sent before. -/
theorem Caught.earlier {closed closed' : Bool} {sent more : Text}
    (caught : Caught clients addr others t closed' (sent ++ more) actions)
    (last : closed = true → more = []) (closes : closed = true → closed' = true) :
    Caught clients addr others t closed sent actions := by
  have grown : (readyLoop closed sent).1 <+: (readyLoop closed' (sent ++ more)).1 ∧
      ((readyLoop closed sent).2 = true →
        readyLoop closed' (sent ++ more) = readyLoop closed sent) :=
    readyLoop_append more last closes
  obtain ⟨grown, same⟩ := grown
  refine ⟨grown.trans caught.executed, fun ended => caught.ended ?_⟩
  rcases Bool.or_eq_true_iff.mp ended with ends | quits
  · rw [closes ends, Bool.true_or]
  · rw [same quits, quits, Bool.or_true]

/-- A thread that waits for its client has executed all it was sent. -/
theorem caught_of_blocked (closesLast : ClosesLast t actions)
    (serving : ((systemReached clients addr others actions).threads t).phase = .serving)
    (blocked : fgets commandLineSize
      ((systemReached clients addr others actions).threads t).hungUp
      ((systemReached clients addr others actions).threads t).incoming = none) :
    Caught clients addr others t (hasClosed t actions) (sentBy t actions) actions := by
  have lines_eq := ((delivered_reached clients addr others actions).tracked t).lines_eq
  rw [serving, Phase.inHand, List.append_nil] at lines_eq
  obtain ⟨hungUp_eq, goesOn⟩ := following_reached clients addr others closesLast
  rw [hungUp_eq] at blocked
  have nothing : readyLoop (hasClosed t actions)
      ((systemReached clients addr others actions).threads t).incoming = ([], false) := by
    rw [readyLoop, blocked]
  have all := goesOn (by rw [serving]; rfl) (hasClosed t actions) [] fun closed => ⟨closed, rfl⟩
  rw [List.append_nil, List.append_nil, nothing, List.append_nil, ← lines_eq] at all
  have executed : (readyLoop (hasClosed t actions) (sentBy t actions)).1 =
      linesOf t (ledgerReached clients addr others actions).executions := congrArg Prod.fst all
  have goesOn' : (readyLoop (hasClosed t actions) (sentBy t actions)).2 = false :=
    congrArg Prod.snd all
  have opened : hasClosed t actions = false := by
    cases closed : hasClosed t actions with
    | false => rfl
    | true => simp [closed, fgets] at blocked
  refine ⟨?_, fun ended => ?_⟩
  · rw [executed]
  · rw [goesOn', opened] at ended
    contradiction

/-- So has a thread that is through, unless it has turned its client away. -/
theorem caught_of_finished (closesLast : ClosesLast t actions)
    (finished : ((systemReached clients addr others actions).threads t).phase = .finished) :
    TurnedAway clients addr others t actions ∨
      Caught clients addr others t (hasClosed t actions) (sentBy t actions) actions := by
  by_cases joined : (ledgerReached clients addr others actions).subscriptions t = none
  · exact .inl ⟨finished, joined⟩
  · have lines_eq := ((delivered_reached clients addr others actions).tracked t).lines_eq
    rw [finished, Phase.inHand, List.append_nil] at lines_eq
    have stopped : ((systemReached clients addr others actions).threads t).phase.reading =
        false := by rw [finished]; rfl
    have reading := (readingIn_reached clients addr others closesLast).stopped stopped joined
    have whole : (readyLoop (hasClosed t actions) (sentBy t actions)).1 <+:
        (readyLoop true (sentBy t actions ++ [])).1 :=
      (readyLoop_append [] (fun _ => rfl) (fun _ => rfl)).1
    rw [List.append_nil, readyLoop_true, reading, ← lines_eq] at whole
    exact .inr ⟨whole, fun _ => finished⟩

end

/-! ## Schedules without end -/

theorem hasClosed_filter (t : ThreadId) (actions : List Action) :
    hasClosed t (actions.filter (·.actor.isNone)) = hasClosed t actions := by
  induction actions with
  | nil => rfl
  | cons action rest ih =>
      cases action with
      | step u => simpa [hasClosed, Action.actor] using ih
      | send u bytes => exact congrArg (decide (Action.send u bytes = .hangUp t) || ·) ih
      | hangUp u => exact congrArg (decide (Action.hangUp u = .hangUp t) || ·) ih

/-- Executed lines are not taken back. -/
theorem linesOf_mono {t : ThreadId} {earlier later : List Execution} (grown : earlier <+: later) :
    linesOf t earlier <+: linesOf t later :=
  (grown.filter _).map _

section

variable (clients : ThreadId → ClientInfo) (addr : DocAddr) (others : OtherOps addr)
  (schedule : Nat → Action)

/-- The whole sections that the first steps of a schedule come to. -/
def serialInputs (n : Nat) : List Action :=
  sections clients addr others (firstInputs schedule n)

theorem sentBy_serialInputs (t : ThreadId) (n : Nat) :
    sentBy t (serialInputs clients addr others schedule n) = sentBy t (firstInputs schedule n) :=
  sentBy_sections clients addr others _ t

theorem hasClosed_serialInputs (t : ThreadId) (n : Nat) :
    hasClosed t (serialInputs clients addr others schedule n) =
      hasClosed t (firstInputs schedule n) := by
  rw [serialInputs, ← hasClosed_filter, filter_sections, hasClosed_filter]

/-- One more step starts a section, goes outside of them, or is part of one. -/
theorem serialInputs_succ (n : Nat) :
    serialInputs clients addr others schedule (n + 1) =
        serialInputs clients addr others schedule n ++ [schedule n] ∨
      serialInputs clients addr others schedule (n + 1) =
          serialInputs clients addr others schedule n ∧
        (statementsReached clients addr others (firstInputs schedule n)).holder ≠ none := by
  rw [serialInputs, sections, firstInputs_succ, serialized_append]
  by_cases starts : (serverThreads clients).starts
    (statementsReached clients addr others (firstInputs schedule n)) (schedule n) = true
  · left
    rw [← statementsReached, serialized, if_pos starts]
    rfl
  · right
    rw [← statementsReached, serialized, if_neg starts]
    refine ⟨List.append_nil _, fun free => starts ?_⟩
    rw [LockedProgram.starts, free]
    cases (serverThreads clients).actor (schedule n) <;> rfl

/-- How far a thread has come. -/
def progressAt (t : ThreadId) (n : Nat) : Nat :=
  progress ((systemReached clients addr others
      (serialInputs clients addr others schedule n)).threads t)
    ((ledgerReached clients addr others (serialInputs clients addr others schedule n)).reads t)

/-- The thread has turned its client away, or has done all there was to do. -/
def Through (t : ThreadId) (closed : Bool) (sent : Text) (n : Nat) : Prop :=
  TurnedAway clients addr others t (serialInputs clients addr others schedule n) ∨
    Caught clients addr others t closed sent (serialInputs clients addr others schedule n)

variable {clients addr others schedule} {t : ThreadId}

theorem progressAt_succ (n : Nat) :
    progressAt clients addr others schedule t n ≤
      progressAt clients addr others schedule t (n + 1) := by
  rcases serialInputs_succ clients addr others schedule n with next | ⟨same, -⟩
  · have delivered := delivered_reached clients addr others
      (serialInputs clients addr others schedule n)
    rw [progressAt, progressAt, next, systemReached_concat, ledgerReached_concat]
    by_cases own : schedule n = .step t
    · rw [own]
      rcases (loopStep_step delivered t).progress with further | ⟨⟨thread_eq, reads_eq⟩, -⟩
      · exact Nat.le_of_lt further
      · rw [thread_eq, reads_eq]
    · obtain ⟨thread_eq, reads_eq, -⟩ := threads_systemStep delivered own
      rw [thread_eq, reads_eq]
      exact Nat.le_refl _
  · rw [progressAt, progressAt, same]

/-- A thread that is finished stays so. -/
theorem finished_mono {n m : Nat} (later : n ≤ m)
    (finished : ((systemReached clients addr others
      (serialInputs clients addr others schedule n)).threads t).phase = .finished) :
    ((systemReached clients addr others
      (serialInputs clients addr others schedule m)).threads t).phase = .finished := by
  induction later with
  | refl => exact finished
  | @step m _ ih =>
      rcases serialInputs_succ clients addr others schedule m with next | ⟨same, -⟩
      · have delivered := delivered_reached clients addr others
          (serialInputs clients addr others schedule m)
        rw [next, systemReached_concat]
        by_cases own : schedule m = .step t
        · rw [own, systemStep, threadStep]
          simp only [ih]
          exact ih
        · rw [(threads_systemStep delivered own).1]
          exact ih
      · rw [same]
        exact ih

/-- A step at a time when the mutex is free brings a thread on, unless it waits for its
client or is through. -/
theorem progressAt_own {n : Nat} (own : schedule n = .step t)
    (free : (statementsReached clients addr others (firstInputs schedule n)).holder = none)
    (closesLast : ClosesLast t (firstInputs schedule n)) :
    progressAt clients addr others schedule t n <
        progressAt clients addr others schedule t (n + 1) ∨
      Through clients addr others schedule t (hasClosed t (firstInputs schedule n))
        (sentBy t (firstInputs schedule n)) n := by
  rcases serialInputs_succ clients addr others schedule n with next | ⟨-, taken⟩
  · have delivered := delivered_reached clients addr others
      (serialInputs clients addr others schedule n)
    have closes : ClosesLast t (serialInputs clients addr others schedule n) :=
      (closesLast_sections clients addr others _ t).mpr closesLast
    rw [progressAt, progressAt, next, systemReached_concat, ledgerReached_concat, own, Through,
      ← hasClosed_serialInputs clients addr others, ← sentBy_serialInputs clients addr others]
    rcases (loopStep_step delivered t).progress with
      further | ⟨-, ⟨serving, blocked⟩ | finished⟩
    · exact .inl further
    · exact .inr (.inr (caught_of_blocked closes serving blocked))
    · exact .inr (caught_of_finished closes finished)
  · exact absurd free taken

/-- A thread that is not through has executed no more than its lines, and fewer if it is
finished. -/
theorem executed_le {closed : Bool} {sent more : Text} {n : Nat}
    (split : sentBy t (firstInputs schedule n) = sent ++ more)
    (last : closed = true → more = []) (closesLast : ClosesLast t (firstInputs schedule n))
    (onward : ¬Through clients addr others schedule t closed sent n) :
    let done := linesOf t (ledgerReached clients addr others
      (serialInputs clients addr others schedule n)).executions
    done.length ≤ (readyLoop closed sent).1.length ∧
      (((systemReached clients addr others
          (serialInputs clients addr others schedule n)).threads t).phase = .finished →
        done.length < (readyLoop closed sent).1.length) := by
  intro done
  let lines := (readyLoop closed sent).1
  have grown : lines <+: (readyLoop true (sent ++ more)).1 ∧ ((readyLoop closed sent).2 = true →
      readyLoop true (sent ++ more) = readyLoop closed sent) :=
    readyLoop_append more last fun _ => rfl
  rw [readyLoop_true] at grown
  obtain ⟨grown, same⟩ := grown
  have executed : done <+: (commandLoop (sent ++ more)).1 := by
    rw [← split, ← sentBy_serialInputs clients addr others]
    exact linesOf_prefix clients addr others
      ((closesLast_sections clients addr others _ t).mpr closesLast)
  by_cases whole : lines <+: done
  · -- Its session is over, so nothing can be read behind these lines.
    have active : ((systemReached clients addr others
        (serialInputs clients addr others schedule n)).threads t).phase ≠ .finished :=
      fun finished => onward (.inr ⟨whole, fun _ => finished⟩)
    have ended : (closed || (readyLoop closed sent).2) = true := by
      by_contra goesOn
      exact onward (.inr ⟨whole, fun ended => absurd ended goesOn⟩)
    have all : (commandLoop (sent ++ more)).1 = lines := by
      rcases Bool.or_eq_true_iff.mp ended with ends | quits
      · simp only [lines, last ends, ends, List.append_nil, readyLoop_true]
      · rw [same quits]
    rw [all] at executed
    exact ⟨executed.length_le, fun finished => absurd finished active⟩
  · rcases List.prefix_or_prefix_of_prefix grown executed with there | short
    · exact absurd there whole
    · have fewer : done.length < lines.length := by
        refine Nat.lt_of_le_of_ne short.length_le fun equal => whole ?_
        rw [short.eq_of_length equal]
      exact ⟨Nat.le_of_lt fewer, fun _ => fewer⟩

/-- So it has not come farther than its lines. -/
theorem progressAt_le {closed : Bool} {sent more : Text} {n : Nat}
    (split : sentBy t (firstInputs schedule n) = sent ++ more)
    (last : closed = true → more = []) (closesLast : ClosesLast t (firstInputs schedule n))
    (onward : ¬Through clients addr others schedule t closed sent n) :
    progressAt clients addr others schedule t n ≤ 2 * (readyLoop closed sent).1.length + 2 := by
  have lines_eq := ((delivered_reached clients addr others
    (serialInputs clients addr others schedule n)).tracked t).lines_eq
  obtain ⟨atMost, less⟩ := executed_le split last closesLast onward
  rw [progressAt, progress, ← lines_eq, List.length_append]
  cases phase : ((systemReached clients addr others
      (serialInputs clients addr others schedule n)).threads t).phase with
  | connecting | serving | holding line | leaving =>
      simp only [Phase.inHand, List.length_nil, List.length_singleton]
      omega
  | finished =>
      have fewer := less phase
      simp only [Phase.inHand, List.length_nil]
      omega

/-- In the end a thread is through with what its client has sent at some time. -/
theorem reaches_through (closesLast : ∀ n, ClosesLast t (firstInputs schedule n))
    (fair : ∀ n, ∃ m, n ≤ m ∧ schedule m = .step t ∧
      (statementsReached clients addr others (firstInputs schedule m)).holder = none) (n : Nat) :
    ∃ m, n ≤ m ∧ Through clients addr others schedule t (hasClosed t (firstInputs schedule n))
      (sentBy t (firstInputs schedule n)) m := by
  let closed := hasClosed t (firstInputs schedule n)
  let sent := sentBy t (firstInputs schedule n)
  have grows {m : Nat} (later : n ≤ m) : ∃ more,
      sentBy t (firstInputs schedule m) = sent ++ more ∧ (closed = true → more = []) ∧
        (closed = true → hasClosed t (firstInputs schedule m) = true) := by
    obtain ⟨more, split⟩ := firstInputs_mono schedule later
    have whole := closesLast m
    rw [← split] at whole
    refine ⟨sentBy t more, ?_, (closesLast_append whole).2, fun ends => ?_⟩
    · rw [← split, sentBy_append]
    · rw [← split, hasClosed_append, Bool.or_eq_true_iff]
      exact .inl ends
  let left (m : Nat) : Nat :=
    2 * (readyLoop closed sent).1.length + 3 - progressAt clients addr others schedule t m
  have lowers (m : Nat) (later : n ≤ m)
      (onward : ¬Through clients addr others schedule t closed sent m) :
      left (m + 1) < left m ∨
        ¬(schedule m = .step t ∧
            (statementsReached clients addr others (firstInputs schedule m)).holder = none) ∧
          left (m + 1) ≤ left m ∧ True := by
    by_cases acts : schedule m = .step t ∧
        (statementsReached clients addr others (firstInputs schedule m)).holder = none
    · obtain ⟨more, split, last, closes⟩ := grows later
      have bound := progressAt_le split last (closesLast m) onward
      rcases progressAt_own acts.1 acts.2 (closesLast m) with further | through
      · exact .inl (by simp only [left]; omega)
      · rw [split] at through
        exact absurd (through.imp_right fun caught => caught.earlier last closes) onward
    · exact .inr ⟨acts, Nat.sub_le_sub_left (progressAt_succ m) _, trivial⟩
  obtain ⟨m, later, -, through⟩ := reaches_of_rank id (fun _ : Unit => fair) (fun m => n ≤ m)
    (Through clients addr others schedule t closed sent) (fun _ _ => True) left
    (fun _ later _ => Nat.le_succ_of_le later) (fun _ _ _ => ⟨(), trivial⟩)
    (fun m _ later onward _ => lowers m later onward) (n := n) (Nat.le_refl n)
  exact ⟨m, later, through⟩

end

/-- A client has been sent the document that it found, and all that was executed since. -/
def UpToDate (clients : ThreadId → ClientInfo) (first : Server) (executions : List Execution)
    (role : UserRole) (written : Text) : Prop :=
  ∃ joinedAt ≤ executions.length, written =
    initialDocument role (UInt64.ofNat joinedAt)
        (documentAfter clients first executions joinedAt) ++
      (published clients joinedAt (executions.drop joinedAt)).flatMap
        fun payload => payloadText payload.1 payload.2

section

variable (clients : ThreadId → ClientInfo) (addr : DocAddr) (others : OtherOps addr)

/-- The lines that were sent are executed, the thread has ended if the session has, and
nobody holds the mutex, so that every registered client has been sent all there is. -/
structure Answered (t : ThreadId) (closed : Bool) (sent : Text) (schedule : List Action) :
    Prop where
  executed : (readyLoop closed sent).1 <+: linesOf t (history clients addr others schedule)
  ended : (closed || (readyLoop closed sent).2) = true →
    ((statementsReached clients addr others schedule).points t).phase = some .finished ∧
      t ∉ (statementsReached clients addr others schedule).shared.registry.head.map (·.outStream)
  free : (statementsReached clients addr others schedule).holder = none
  upToDate : ∀ conn ∈ (statementsReached clients addr others schedule).shared.registry.head,
    UpToDate clients (Server.fresh addr others) (history clients addr others schedule)
      (clients conn.outStream).role
      ((statementsReached clients addr others schedule).shared.streams conn.outStream).written

variable {clients addr others} in
/-- With a free mutex every registered client is up to date. -/
theorem upToDate_of_free {schedule : List Action}
    (free : (statementsReached clients addr others schedule).holder = none) {conn : ClientConn}
    (member : conn ∈ (statementsReached clients addr others schedule).shared.registry.head) :
    UpToDate clients (Server.fresh addr others) (history clients addr others schedule)
      (clients conn.outStream).role
      ((statementsReached clients addr others schedule).shared.streams conn.outStream).written := by
  have delivered := delivered_reached clients addr others (sections clients addr others schedule)
  have chronicle := chronicle_reached clients addr others (sections clients addr others schedule)
  obtain ⟨orderly, -, settled, n, shows_, settles⟩ :=
    statements_serializable clients addr others schedule
  rw [settles.eq_of_free free] at shows_
  have among : conn.outStream ∈
      (statementsReached clients addr others schedule).shared.registry.head.map (·.outStream) :=
    List.mem_map_of_mem member
  have stream := shows_.stream_eq conn.outStream
  rw [if_neg (Shows.not_closing orderly among)] at stream
  have tracked := delivered.tracked conn.outStream
  have registered : conn.outStream ∈ (systemReached clients addr others
      (sections clients addr others schedule)).registered := by
    rw [System.registered, shows_.registry_eq]
    exact among
  obtain ⟨stay, subscribed, ongoing⟩ :=
    tracked.subscribed_iff.mp (tracked.registered_iff.mp registered)
  obtain ⟨version_eq, -, -, written_eq⟩ := tracked.served stay subscribed
  obtain ⟨begun, text_eq⟩ := chronicle.text_eq conn.outStream stay subscribed
  refine ⟨stay.joinedAt, begun, ?_⟩
  rw [← stream, written_eq, version_eq, text_eq, delivered.payloads_eq,
    Subscription.endsAt_ongoing ongoing, List.take_length, List.flatMap_def]
  rfl

variable {clients addr others} in
/-- With a free mutex a finished thread is nowhere registered. -/
theorem ended_of_free {schedule : List Action} {t : ThreadId}
    (free : (statementsReached clients addr others schedule).holder = none)
    (finished : ((systemReached clients addr others
      (sections clients addr others schedule)).threads t).phase = .finished) :
    ((statementsReached clients addr others schedule).points t).phase = some .finished ∧
      t ∉ (statementsReached clients addr others schedule).shared.registry.head.map
        (·.outStream) := by
  have tracked :=
    (delivered_reached clients addr others (sections clients addr others schedule)).tracked t
  obtain ⟨-, -, settled, n, shows_, settles⟩ :=
    statements_serializable clients addr others schedule
  rw [settles.eq_of_free free] at shows_
  refine ⟨by rw [shows_.phase_eq, finished], fun member => ?_⟩
  rw [← shows_.registry_eq] at member
  have connected := tracked.registered_iff.mp member
  rw [finished] at connected
  contradiction

end

theorem Action.eq_step {action : Action} {t : ThreadId} (actor : action.actor = some t) :
    action = .step t := by
  cases action with
  | step u => rw [Option.some.inj actor]
  | send u bytes => cases actor
  | hangUp u => cases actor

/-- Every line is executed.  If each thread that holds the mutex steps again, and the mutex
does not pass over a thread for ever, then whatever its client has sent at any time is
answered; unless the client was turned away, because another one has the same pid. -/
theorem every_line_is_executed (clients : ThreadId → ClientInfo) (addr : DocAddr)
    (others : OtherOps addr) {schedule : Nat → Action} {t : ThreadId}
    (closesLast : ∀ n, ClosesLast t (firstInputs schedule n))
    (holders : (serverThreads clients).HoldersStep (statementsStart addr others) schedule)
    (fair : (serverThreads clients).FairTo t (statementsStart addr others) schedule) (n : Nat) :
    ∃ m, n ≤ m ∧
      (((∃ u, u ≠ t ∧ (clients u).pid = (clients t).pid) ∧
          TurnedAway clients addr others t
            (sections clients addr others (firstInputs schedule m))) ∨
        Answered clients addr others t (hasClosed t (firstInputs schedule n))
          (sentBy t (firstInputs schedule n)) (firstInputs schedule m)) := by
  have again := free_again (commutes clients) (bounded clients) (bracketed clients)
    (orderly_start clients addr others) (exclusive_start clients addr others) holders
  have meets (k : Nat) : ∃ m, k ≤ m ∧ schedule m = .step t ∧
      (statementsReached clients addr others (firstInputs schedule m)).holder = none := by
    obtain ⟨m, later, actor, free⟩ := fair again k
    exact ⟨m, later, Action.eq_step actor, free⟩
  obtain ⟨m, later, away | caught⟩ := reaches_through closesLast meets n
  · exact ⟨m, later, .inl ⟨away.pid_eq, away⟩⟩
  · obtain ⟨k, after, free⟩ := again m
    obtain ⟨more, split⟩ := firstInputs_mono schedule after
    have grown := history_append clients addr others (firstInputs schedule m) more
    rw [split] at grown
    have executed := caught.executed.trans (linesOf_mono grown)
    exact ⟨k, Nat.le_trans later after, .inr ⟨executed,
      fun ended => ended_of_free free (finished_mono after (caught.ended ended)), free,
      fun _ => upToDate_of_free free⟩⟩

/-- One client sends a line and ends the session, and its thread takes all the steps. -/
def oneLine : Nat → Action
  | 0 => .send 0 (ascii "INSERT 0 hello\nQUIT\n")
  | _ + 1 => .step 0

theorem mem_oneLine {n : Nat} {action : Action} (member : action ∈ firstInputs oneLine n) :
    action = .send 0 (ascii "INSERT 0 hello\nQUIT\n") ∨ action = .step 0 := by
  obtain ⟨k, -, rfl⟩ := List.mem_map.mp member
  cases k with
  | zero => exact .inl rfl
  | succ k => exact .inr rfl

theorem closesLast_of_notMem {t : ThreadId} {actions : List Action}
    (absent : .hangUp t ∉ actions) : ClosesLast t actions := by
  induction actions with
  | nil => trivial
  | cons action rest ih =>
      refine ⟨fun hangsUp => absurd (hangsUp ▸ List.mem_cons_self) absent, ih fun member => ?_⟩
      exact absent (List.mem_cons_of_mem _ member)

/-- That session comes to its end. -/
theorem every_line_is_executed_oneLine :
    ∃ m, 1 ≤ m ∧
      (((∃ u, u ≠ 0 ∧ (soleWriter u).pid = (soleWriter 0).pid) ∧
          TurnedAway soleWriter 1 ⟨[], rfl⟩ 0
            (sections soleWriter 1 ⟨[], rfl⟩ (firstInputs oneLine m))) ∨
        Answered soleWriter 1 ⟨[], rfl⟩ 0 (hasClosed 0 (firstInputs oneLine 1))
          (sentBy 0 (firstInputs oneLine 1)) (firstInputs oneLine m)) := by
  refine every_line_is_executed soleWriter 1 ⟨[], rfl⟩ (fun n => ?_) (fun n t held => ?_)
    (fun again n => ?_) 1
  · apply closesLast_of_notMem
    intro member
    rcases mem_oneLine member with sends | steps <;> contradiction
  · obtain ⟨action, member, actor⟩ := actor_of_holder rfl held
    rcases mem_oneLine member with rfl | rfl
    · contradiction
    · exact ⟨n + 1, Nat.le_succ n, actor⟩
  · obtain ⟨m, later, free⟩ := again (n + 1)
    obtain ⟨k, rfl⟩ := Nat.exists_eq_add_of_le' (Nat.le_trans (Nat.le_add_left 1 n) later)
    exact ⟨k + 1, by omega, rfl, free⟩

end CollabMarkdown.Process
