import CollabMarkdown.Process.Ownership

/-!
# Connections from start to end

Each thread from the FIFOs it makes to its return, interleaved with all others,
under any failures of system calls, streams and allocations.  In a run where no
registration fails on a copy, a thread that has returned has closed its stream to
the client once; the first such registration closes one twice.
-/

namespace CollabMarkdown.Process

open CollabMarkdown.CString
open CollabMarkdown.Command
open CollabMarkdown.Markdown
open CollabMarkdown.Transition

/-! ## Before the lock -/

/-- What the environment answers a thread before it takes the mutex: whether the FIFOs
are made, the client is signalled, both ends are opened and turned into streams; the
username line; and the role found for it. -/
structure Arrival where
  fifoPair : Bool
  signalled : Bool
  c2sOpened : Bool
  s2cOpened : Bool
  c2sStream : Bool
  s2cStream : Bool
  username : Option Username
  role : Option UserRole
  deriving DecidableEq, Repr

/-- How that part ends: with the connection given up, after a stream to the client was
opened or before, or with a client logged in. -/
inductive Greeting where
  | unopened
  | givenUp
  | loggedIn (username : Username) (role : UserRole)
  deriving DecidableEq, Repr

variable {m : Type → Type} [Monad m] [MonadMalloc m] [MonadStream m]

/-- `client_thread_main` up to the lock. -/
def greet (arrival : Arrival) (streams : Streams) (t : ThreadId) : m (Greeting × Streams) := do
  if !(arrival.fifoPair && arrival.signalled && arrival.c2sOpened && arrival.s2cOpened) then
    return (.unopened, streams)
  else if !arrival.s2cStream then
    return (.unopened, streams)
  else if !arrival.c2sStream then
    return (.givenUp, fclose streams t)
  else
    match arrival.username with
    | none => return (.givenUp, fclose streams t)
    | some username =>
        match arrival.role with
        | none => do
            let (_, streams) ← fputs streams t (ascii "Reject UNAUTHORISED\n")
            let (_, streams) ← fflush streams t
            return (.givenUp, fclose streams t)
        | some role => return (.loggedIn username role, streams)

/-- The server process and how far each thread got before its first lock. -/
structure Service where
  system : System
  greeting : ThreadId → Option Greeting

/-- A thread starts on a connection, or an action of the system behind the lock. -/
inductive ServiceAction where
  | arrive (t : ThreadId) (arrival : Arrival)
  | act (action : Action)
  deriving DecidableEq, Repr

/-- An action and the failures it meets. -/
structure ServiceInput where
  action : ServiceAction
  faults : StreamFaults
  answers : Answers

namespace Service

variable (pids : ThreadId → Pid)

/-- Whom a thread serves. -/
def client (service : Service) (t : ThreadId) : ClientInfo :=
  match service.greeting t with
  | some (.loggedIn username role) => ⟨pids t, username, role⟩
  | _ => ⟨pids t, ⟨[], by decide⟩, .read⟩

/-- A new server, before any client has connected. -/
def start (addr : DocAddr) (others : OtherOps addr) : Service :=
  ⟨System.start addr others, fun _ => none⟩

/-- The thread has found the role of its user. -/
def LoggedIn (service : Service) (t : ThreadId) : Prop :=
  ∃ username role, service.greeting t = some (.loggedIn username role)

/-- The thread has returned, with a stream to the client opened on its way. -/
def Ended (service : Service) (t : ThreadId) : Prop :=
  service.greeting t = some .givenUp ∨ (service.system.threads t).phase = .finished

/-- Every thread that has returned has closed its stream, and once. -/
def ClosedOnce (service : Service) : Prop :=
  ∀ t, service.Ended t → (service.system.streams t).closes = 1

end Service

/-- One action under the failures it meets. -/
def serviceStep (pids : ThreadId → Pid) (service : Service) (input : ServiceInput) :
    Service × ServerEvent :=
  match input.action with
  | .arrive t arrival =>
      match service.greeting t with
      | some _ => (service, .idle)
      | none =>
          let (greeting, streams) :=
            (outcome (greet arrival service.system.streams t) input.faults input.answers).1
          (⟨{ service.system with streams },
            Function.update service.greeting t (some greeting)⟩, .idle)
  | .act (.step t) =>
      match service.greeting t with
      | some (.loggedIn _ _) =>
          let (system, event) := (outcome (threadStep (service.client pids) service.system t)
            input.faults input.answers).1
          ({ service with system }, event)
      | _ => (service, .idle)
  | .act action =>
      let (system, event) := systemStep (service.client pids) service.system action
      ({ service with system }, event)

/-- The step that loses a stream: a client connects, its record is allocated, and one of
its copies is not. -/
def LosesStream (pids : ThreadId → Pid) (service : Service) (input : ServiceInput) : Prop :=
  ∃ t, input.action = .act (.step t) ∧ service.LoggedIn t ∧
    (service.system.threads t).phase = .connecting ∧
    clientRegistryFind service.system.registry (pids t) = none ∧
    Faulty.Spares input.answers 2 ∧ ¬Faulty.Spares (input.answers.drop 2) 3

/-! ## What a step does to the streams -/

/-- The ways a step moves the service, as far as ownership goes; `loses` is what the
loss of a stream takes. -/
inductive Move (pids : ThreadId → Pid) (service : Service) (loses : Prop) : Service → Prop where
  | stay {system : System} (registry_eq : system.registry = service.system.registry)
      (same : SameCloses service.system.streams system.streams)
      (phases : ∀ t, (system.threads t).phase = (service.system.threads t).phase ∨
        (service.system.threads t).phase.connected ∧ (system.threads t).phase.connected) :
      Move pids service loses { service with system }
  | greeted {t : ThreadId} {greeting : Greeting} {streams : Streams}
      (fresh : service.greeting t = none)
      (others : ∀ other, other ≠ t →
        (streams other).closes = (service.system.streams other).closes)
      (here : (streams t).closes =
        (service.system.streams t).closes + if greeting = .givenUp then 1 else 0) :
      Move pids service loses ⟨{ service.system with streams },
        Function.update service.greeting t (some greeting)⟩
  | refused {t : ThreadId} {streams : Streams} (loggedIn : service.LoggedIn t)
      (connecting : (service.system.threads t).phase = .connecting)
      (same : SameCloses service.system.streams streams) :
      Move pids service loses { service with
        system := { service.system with streams := fclose streams t }.setPhase t .finished }
  | joined {t : ThreadId} {streams : Streams} (loggedIn : service.LoggedIn t)
      (connecting : (service.system.threads t).phase = .connecting)
      (absent : clientRegistryFind service.system.registry (pids t) = none)
      (same : SameCloses service.system.streams streams) :
      Move pids service loses { service with
        system := { service.system.join (service.client pids t) t with streams }.setPhase t
          .serving }
  | lost {t : ThreadId} {streams : Streams} (lost : loses) (loggedIn : service.LoggedIn t)
      (connecting : (service.system.threads t).phase = .connecting)
      (same : SameCloses service.system.streams streams) :
      Move pids service loses { service with
        system :=
          { service.system with streams := fclose (fclose streams t) t }.setPhase t .finished }
  | left {t : ThreadId} (loggedIn : service.LoggedIn t)
      (leaving : (service.system.threads t).phase = .leaving) :
      Move pids service loses { service with
        system := (leaveSection (service.client pids) service.system t).1 }

theorem outcome_greet (arrival : Arrival) (streams : Streams) (t : ThreadId)
    (faults : StreamFaults) (answers : Answers) :
    ∃ greeting streams', SameCloses streams streams' ∧
      (outcome (greet arrival streams t) faults answers).1 =
        (greeting, if greeting = .givenUp then fclose streams' t else streams') := by
  have early : SameCloses streams streams := SameCloses.refl streams
  unfold greet
  split
  · exact ⟨.unopened, streams, early, rfl⟩
  · split
    · exact ⟨.unopened, streams, early, rfl⟩
    · split
      · exact ⟨.givenUp, streams, early, rfl⟩
      · cases arrival.username with
        | none => exact ⟨.givenUp, streams, early, rfl⟩
        | some username =>
            cases arrival.role with
            | some role => exact ⟨.loggedIn username role, streams, early, rfl⟩
            | none =>
                obtain ⟨_, first, -, put, ran⟩ :=
                  quiet_fputs streams t (ascii "Reject UNAUTHORISED\n") faults answers
                obtain ⟨_, last, -, flushed, ran'⟩ := quiet_fflush first t faults answers
                exact ⟨.givenUp, last, put.trans flushed, by
                  simp only [outcome_bind, ran, ran', outcome_pure, if_true]⟩

@[simp]
theorem pid_client (pids : ThreadId → Pid) (service : Service) (t : ThreadId) :
    (service.client pids t).pid = pids t := by
  unfold Service.client
  split <;> rfl

theorem running_of_connected {phase : Phase} (connected : phase.connected) : phase ≠ .finished := by
  rintro rfl
  exact Bool.noConfusion connected

theorem phase_setThread_of_eq {sys : System} {t : ThreadId} {thread : ClientThread}
    (same : thread.phase = (sys.threads t).phase) (other : ThreadId) :
    ((sys.setThread t thread).threads other).phase = (sys.threads other).phase := by
  by_cases here : other = t
  · subst here
    simpa [System.setThread] using same
  · simp [System.setThread, here]

theorem phases_setThread {sys : System} {t : ThreadId} {thread : ClientThread}
    (connected : (sys.threads t).phase.connected) (still : thread.phase.connected)
    (other : ThreadId) :
    ((sys.setThread t thread).threads other).phase = (sys.threads other).phase ∨
      (sys.threads other).phase.connected ∧
        ((sys.setThread t thread).threads other).phase.connected := by
  by_cases here : other = t
  · subst here
    exact .inr ⟨connected, by simpa [System.setThread] using still⟩
  · exact .inl (by simp [System.setThread, here])

namespace Move

variable {pids : ThreadId → Pid} {service : Service} {loses : Prop}

/-- A step that changes nothing. -/
theorem idle : Move pids service loses service :=
  .stay rfl (SameCloses.refl _) fun _ => .inl rfl

theorem readCommand {t : ThreadId} (serving : (service.system.threads t).phase = .serving) :
    Move pids service loses { service with system := (readCommand service.system t).1 } := by
  have connected : (service.system.threads t).phase.connected := by rw [serving]; rfl
  rcases readCommand_cases service.system t with
    blocked | ⟨incoming, quit⟩ | ⟨incoming, line, -, read⟩
  · rw [blocked]
    exact idle
  · rw [quit]
    exact .stay rfl (SameCloses.refl _) (phases_setThread connected rfl)
  · rw [read]
    exact .stay rfl (SameCloses.refl _) (phases_setThread connected rfl)

/-- A step of a thread whose client has logged in. -/
theorem threadStep {t : ThreadId} (faults : StreamFaults) (answers : Answers)
    (loggedIn : service.LoggedIn t)
    (loss : (service.system.threads t).phase = .connecting →
      clientRegistryFind service.system.registry (pids t) = none →
      Faulty.Spares answers 2 → ¬Faulty.Spares (answers.drop 2) 3 → loses) :
    Move pids service loses { service with system :=
      (outcome (Process.threadStep (service.client pids) service.system t) faults
        answers).1.1 } := by
  cases phase : (service.system.threads t).phase with
  | connecting =>
      obtain ⟨streams, same, connected⟩ :=
        outcome_connectSection (service.client pids) service.system t faults answers
      simp only [pid_client] at connected
      simp only [Process.threadStep, phase]
      rcases connected with ⟨refused, -⟩ | ⟨doubled, absent, granted, lost⟩ | ⟨joined, absent, -⟩
      · rw [refused]
        exact .refused loggedIn phase same
      · rw [doubled]
        exact .lost (loss phase absent granted lost) loggedIn phase same
      · rw [joined]
        exact .joined loggedIn phase absent same
  | serving =>
      simp only [Process.threadStep, phase]
      exact readCommand phase
  | holding line =>
      obtain ⟨server, streams, same, executed⟩ :=
        outcome_executeSection (service.client pids) service.system t faults answers line
      have connected : (service.system.threads t).phase.connected := by rw [phase]; rfl
      simp only [Process.threadStep, phase]
      rw [executed]
      exact .stay rfl same (phases_setThread connected rfl)
  | leaving =>
      simp only [Process.threadStep, phase]
      exact .left loggedIn phase
  | finished =>
      simp only [Process.threadStep, phase]
      exact idle

end Move

/-- Every step makes one of the moves. -/
theorem serviceStep_move (pids : ThreadId → Pid) (service : Service) (input : ServiceInput) :
    Move pids service (LosesStream pids service input) (serviceStep pids service input).1 := by
  obtain ⟨action, faults, answers⟩ := input
  match action with
  | .arrive t arrival =>
      cases known : service.greeting t with
      | some greeting =>
          simp only [serviceStep, known]
          exact Move.idle
      | none =>
          obtain ⟨greeting, streams, same, ran⟩ :=
            outcome_greet arrival service.system.streams t faults answers
          simp only [serviceStep, known, ran]
          apply Move.greeted known
          · intro other apart
            split
            · rw [fclose_of_ne _ apart, same other]
            · exact same other
          · split
            · rw [closes_fclose_self, same t]
            · exact same t
  | .act (.step t) =>
      cases known : service.greeting t with
      | none =>
          simp only [serviceStep, known]
          exact Move.idle
      | some greeting =>
          cases greeting with
          | unopened | givenUp =>
              simp only [serviceStep, known]
              exact Move.idle
          | loggedIn username role =>
              have loggedIn : service.LoggedIn t := ⟨username, role, known⟩
              simp only [serviceStep, known]
              apply Move.threadStep faults answers loggedIn
              intro connecting absent granted lost
              exact ⟨t, rfl, loggedIn, connecting, absent, granted, lost⟩
  | .act (.send t bytes) =>
      exact .stay rfl (SameCloses.refl _) fun other => .inl (phase_setThread_of_eq (by rfl) other)
  | .act (.hangUp t) =>
      exact .stay rfl (SameCloses.refl _) fun other => .inl (phase_setThread_of_eq (by rfl) other)

/-! ## Keeping account -/

/-- How often the stream of a thread should have been closed. -/
def Service.due (service : Service) (t : ThreadId) : Nat :=
  if service.greeting t = some .givenUp ∨ (service.system.threads t).phase = .finished then 1
  else 0

/-- The registry holds the streams of the connected threads, and the closes are those
due. -/
structure Accounted (pids : ThreadId → Pid) (service : Service) : Prop where
  owned : service.system.registry.Owned (service.client pids)
  registered : ∀ t, t ∈ service.system.registered ↔ (service.system.threads t).phase.connected
  waiting : ∀ t, ¬service.LoggedIn t → (service.system.threads t).phase = .connecting
  closes : ∀ t, (service.system.streams t).closes = service.due t

theorem Service.due_of_loggedIn {service : Service} {t : ThreadId} (loggedIn : service.LoggedIn t) :
    service.due t = if (service.system.threads t).phase = .finished then 1 else 0 := by
  obtain ⟨username, role, known⟩ := loggedIn
  simp [Service.due, known]

namespace Accounted

variable {pids : ThreadId → Pid} {service : Service}

theorem start (addr : DocAddr) (others : OtherOps addr) :
    Accounted pids (Service.start addr others) where
  owned := ⟨fun _ member => absurd member List.not_mem_nil, List.nodup_nil⟩
  registered _ := by
    constructor
    · intro member
      exact absurd member List.not_mem_nil
    · exact fun connected => Bool.noConfusion connected
  waiting _ _ := rfl
  closes _ := rfl

/-- A step of a thread that has logged in keeps account, when its own stream is closed
as it should be and nothing else changes. -/
theorem advance (accounted : Accounted pids service) {t : ThreadId} (system : System)
    (loggedIn : service.LoggedIn t) (owned : system.registry.Owned (service.client pids))
    (phases : ∀ other, other ≠ t →
      (system.threads other).phase = (service.system.threads other).phase)
    (registry : ∀ other, other ≠ t → (other ∈ system.registered ↔
      other ∈ service.system.registered))
    (closes : ∀ other, other ≠ t →
      (system.streams other).closes = (service.system.streams other).closes)
    (phase : t ∈ system.registered ↔ (system.threads t).phase.connected)
    (here : (system.streams t).closes =
      if (system.threads t).phase = .finished then 1 else 0) :
    Accounted pids { service with system } where
  owned := owned
  registered other := by
    by_cases same : other = t
    · subst same
      exact phase
    · rw [registry other same, phases other same]
      exact accounted.registered other
  waiting other stranger := by
    have apart : other ≠ t := by
      rintro rfl
      exact stranger loggedIn
    rw [phases other apart]
    exact accounted.waiting other stranger
  closes other := by
    by_cases same : other = t
    · subst same
      have known : Service.LoggedIn { service with system } other := loggedIn
      rw [here, Service.due_of_loggedIn known]
    · rw [closes other same, accounted.closes other, Service.due, Service.due, phases other same]

theorem closes_of_loggedIn (accounted : Accounted pids service) {t : ThreadId}
    (loggedIn : service.LoggedIn t) (running : (service.system.threads t).phase ≠ .finished) :
    (service.system.streams t).closes = 0 := by
  rw [accounted.closes t, Service.due_of_loggedIn loggedIn, if_neg running]

/-- A thread that is not connected is not in the registry. -/
theorem absent (accounted : Accounted pids service) {t : ThreadId}
    (connecting : (service.system.threads t).phase = .connecting) :
    t ∉ service.system.registered := by
  rw [accounted.registered t, connecting]
  exact Bool.noConfusion

theorem stay (accounted : Accounted pids service) {system : System}
    (registry_eq : system.registry = service.system.registry)
    (same : SameCloses service.system.streams system.streams)
    (phases : ∀ t, (system.threads t).phase = (service.system.threads t).phase ∨
      (service.system.threads t).phase.connected ∧ (system.threads t).phase.connected) :
    Accounted pids { service with system } where
  owned := by
    rw [registry_eq]
    exact accounted.owned
  registered t := by
    have members : t ∈ system.registered ↔ t ∈ service.system.registered := by
      rw [System.registered, registry_eq, System.registered]
    rw [members, accounted.registered t]
    rcases phases t with unmoved | ⟨before, after⟩
    · rw [unmoved]
    · exact iff_of_true before after
  waiting t stranger := by
    have connecting := accounted.waiting t stranger
    rcases phases t with unmoved | ⟨before, -⟩
    · rw [unmoved, connecting]
    · simp [connecting, Phase.connected] at before
  closes t := by
    rw [same t, accounted.closes t, Service.due, Service.due]
    rcases phases t with unmoved | ⟨before, after⟩
    · rw [unmoved]
    · simp [running_of_connected before, running_of_connected after]

theorem greeted (accounted : Accounted pids service) {t : ThreadId} {greeting : Greeting}
    {streams : Streams} (fresh : service.greeting t = none)
    (others : ∀ other, other ≠ t →
      (streams other).closes = (service.system.streams other).closes)
    (here : (streams t).closes =
      (service.system.streams t).closes + if greeting = .givenUp then 1 else 0) :
    Accounted pids ⟨{ service.system with streams },
      Function.update service.greeting t (some greeting)⟩ := by
  have stranger : ¬service.LoggedIn t := by
    rintro ⟨username, role, known⟩
    simp [fresh] at known
  have connecting := accounted.waiting t stranger
  refine ⟨?_, accounted.registered, ?_, ?_⟩
  · exact ⟨fun conn member => by
      rw [pid_client, accounted.owned.pid_eq conn member, pid_client], accounted.owned.distinct⟩
  · intro other stranger'
    by_cases same : other = t
    · subst same
      exact connecting
    · apply accounted.waiting other
      rintro ⟨username, role, known⟩
      exact stranger' ⟨username, role, by simpa [same] using known⟩
  · intro other
    by_cases same : other = t
    · subst same
      have unclosed := accounted.closes other
      rw [Service.due, fresh, connecting] at unclosed
      simp [here, unclosed, Service.due, connecting]
    · rw [others other same, accounted.closes other]
      simp [Service.due, same]

theorem refused (accounted : Accounted pids service) {t : ThreadId} {streams : Streams}
    (loggedIn : service.LoggedIn t) (connecting : (service.system.threads t).phase = .connecting)
    (same : SameCloses service.system.streams streams) :
    Accounted pids { service with
      system := { service.system with streams := fclose streams t }.setPhase t .finished } := by
  refine accounted.advance _ loggedIn accounted.owned ?_ ?_ ?_ ?_ ?_
  · intro other apart
    simp [apart]
  · exact fun _ _ => Iff.rfl
  · intro other apart
    simp [fclose_of_ne _ apart, same other]
  · refine iff_of_false (accounted.absent connecting) ?_
    simp [Phase.connected]
  · have unclosed := accounted.closes_of_loggedIn loggedIn (by simp [connecting])
    simp [same t, unclosed]

theorem joined (accounted : Accounted pids service) {t : ThreadId} {streams : Streams}
    (loggedIn : service.LoggedIn t) (connecting : (service.system.threads t).phase = .connecting)
    (absent : clientRegistryFind service.system.registry (pids t) = none)
    (same : SameCloses service.system.streams streams) :
    Accounted pids { service with
      system := { service.system.join (service.client pids t) t with streams }.setPhase t
        .serving } := by
  refine accounted.advance _ loggedIn ?_ ?_ ?_ ?_ ?_ ?_
  · exact accounted.owned.join (by rwa [pid_client])
  · intro other apart
    simp [apart, System.join]
  · intro other apart
    change other ∈ t :: service.system.registered ↔ _
    simp [apart]
  · intro other _
    exact same other
  · refine iff_of_true ?_ (by simp [Phase.connected])
    exact List.mem_cons_self
  · have unclosed := accounted.closes_of_loggedIn loggedIn (by simp [connecting])
    simp [same t, unclosed]

theorem left (accounted : Accounted pids service) {t : ThreadId} (loggedIn : service.LoggedIn t)
    (leaving : (service.system.threads t).phase = .leaving) :
    Accounted pids { service with
      system := (leaveSection (service.client pids) service.system t).1 } := by
  have registered : t ∈ service.system.registered := by
    rw [accounted.registered t, leaving]
    rfl
  rw [accounted.owned.leaveSection_eq registered]
  refine accounted.advance _ loggedIn ?_ ?_ ?_ ?_ ?_ ?_
  · exact accounted.owned.leave t
  · intro other apart
    simp [apart, System.leave]
  · intro other apart
    have others := accounted.owned.mem_registered_leave registered other
    rw [and_iff_left apart] at others
    exact others
  · intro other apart
    simp [System.leave, fclose_of_ne _ apart]
  · refine iff_of_false ?_ (by simp [Phase.connected])
    have gone := accounted.owned.mem_registered_leave registered t
    exact fun member => (gone.mp member).2 rfl
  · have unclosed := accounted.closes_of_loggedIn loggedIn (by simp [leaving])
    simp [System.leave, unclosed]

/-- Every move but the loss of a stream keeps account. -/
theorem move (accounted : Accounted pids service) {loses : Prop} {next : Service}
    (step : Move pids service loses next) (keeps : ¬loses) : Accounted pids next := by
  cases step with
  | stay registry_eq same phases => exact accounted.stay registry_eq same phases
  | greeted fresh others here => exact accounted.greeted fresh others here
  | refused loggedIn connecting same => exact accounted.refused loggedIn connecting same
  | joined loggedIn connecting absent same =>
      exact accounted.joined loggedIn connecting absent same
  | lost loss => exact absurd loss keeps
  | left loggedIn leaving => exact accounted.left loggedIn leaving

/-- Whoever has returned has closed its stream once. -/
theorem closedOnce (accounted : Accounted pids service) : service.ClosedOnce := by
  intro t ended
  rw [accounted.closes t]
  exact if_pos ended

end Accounted

/-! ## After a loss -/

theorem closes_le_fclose (streams : Streams) (t out : StreamId) :
    (streams out).closes ≤ (fclose streams t out).closes := by
  by_cases same : out = t
  · subst same
    simp
  · rw [fclose_of_ne _ same]

/-- A stream that was closed stays closed, and a thread that returned does not come
back. -/
theorem Move.grows {pids : ThreadId → Pid} {service next : Service} {loses : Prop}
    (step : Move pids service loses next) (t : ThreadId) :
    (service.system.streams t).closes ≤ (next.system.streams t).closes ∧
      (service.Ended t → next.Ended t) := by
  have unmoved {sys : System} {other : ThreadId} {phase : Phase}
      (threads : sys.threads = service.system.threads)
      (there : (service.system.threads other).phase ≠ .finished) :
      service.Ended t → Service.Ended { service with system := sys.setPhase other phase } t := by
    rintro (given | finished)
    · exact .inl given
    · have apart : t ≠ other := by
        rintro rfl
        exact there finished
      right
      simpa [apart, threads] using finished
  cases step with
  | stay registry_eq same phases =>
      refine ⟨(same t).ge, Or.imp_right fun finished => ?_⟩
      rcases phases t with kept | ⟨before, -⟩
      · rw [kept, finished]
      · exact absurd finished (running_of_connected before)
  | @greeted other greeting streams fresh others here =>
      constructor
      · by_cases same : t = other
        · subst same
          exact here ▸ Nat.le_add_right _ _
        · exact (others t same).ge
      · refine Or.imp_left fun given => ?_
        have apart : t ≠ other := by
          rintro rfl
          simp [fresh] at given
        simpa [apart] using given
  | @refused other streams loggedIn connecting same =>
      exact ⟨(same t).ge.trans (closes_le_fclose _ _ _), unmoved rfl (by simp [connecting])⟩
  | joined loggedIn connecting absent same =>
      exact ⟨(same t).ge, unmoved rfl (by simp [connecting])⟩
  | lost loss loggedIn connecting same =>
      exact ⟨(same t).ge.trans ((closes_le_fclose _ _ _).trans (closes_le_fclose _ _ _)),
        unmoved rfl (by simp [connecting])⟩
  | @left other loggedIn leaving =>
      rw [leaveSection, clientRegistryRemove]
      cases unlinkConn (service.client pids other).pid service.system.registry.head with
      | none => exact ⟨le_rfl, unmoved rfl (by simp [leaving])⟩
      | some found => exact ⟨closes_le_fclose _ _ _, unmoved rfl (by simp [leaving])⟩

/-- The section that loses a stream closes it twice. -/
theorem serviceStep_loses {pids : ThreadId → Pid} {service : Service} {input : ServiceInput}
    (accounted : Accounted pids service) (loses : LosesStream pids service input) :
    ∃ t, (serviceStep pids service input).1.Ended t ∧
      ((serviceStep pids service input).1.system.streams t).closes = 2 := by
  obtain ⟨action, faults, answers⟩ := input
  obtain ⟨t, rfl, ⟨username, role, known⟩, connecting, absent, granted, lost⟩ := loses
  obtain ⟨streams, same, connected⟩ :=
    outcome_connectSection (service.client pids) service.system t faults answers
  simp only [pid_client] at connected
  rcases connected with ⟨-, keeps⟩ | ⟨doubled, -⟩ | ⟨-, -, copied⟩
  · exact absurd ⟨absent, granted⟩ keeps
  · have unclosed : (service.system.streams t).closes = 0 :=
      accounted.closes_of_loggedIn ⟨username, role, known⟩ (by simp [connecting])
    refine ⟨t, ?_⟩
    simp only [serviceStep, known, threadStep, connecting, doubled]
    constructor
    · exact .inr (System.phase_setPhase ..)
    · simp [same t, unclosed]
  · exact absurd copied lost

/-- In a run, every thread that has returned has closed its stream once exactly when no
step has lost a stream. -/
theorem closedOnce_run_iff {pids : ThreadId → Pid} {service : Service}
    (accounted : Accounted pids service) (inputs : List ServiceInput) :
    (run (serviceStep pids) service inputs).1.ClosedOnce ↔
      Meets (serviceStep pids) (fun service input => ¬LosesStream pids service input) service
        inputs := by
  induction inputs generalizing service with
  | nil => exact iff_of_true accounted.closedOnce trivial
  | cons input rest ih =>
      by_cases loses : LosesStream pids service input
      · apply iff_of_false
        · intro closed
          obtain ⟨t, ended, twice⟩ := serviceStep_loses accounted loses
          have stays := run_invariant (serviceStep pids)
            (fun service => service.Ended t ∧ 2 ≤ (service.system.streams t).closes)
            (fun service input ⟨ended, twice⟩ =>
              have grows := (serviceStep_move pids service input).grows t
              ⟨grows.2 ended, twice.trans grows.1⟩) ⟨ended, twice.ge⟩ rest
          have once : ((run (serviceStep pids) (serviceStep pids service input).1
              rest).1.system.streams t).closes = 1 := closed t stays.1
          have more := stays.2
          rw [once] at more
          exact absurd more (by decide)
        · exact fun meets => meets.1 loses
      · rw [run_cons, Meets, and_iff_right loses]
        exact ih (accounted.move (serviceStep_move pids service input) loses)

/-- A failed registration leaves the stream to its caller unless a copy failed, and in a
run of the service every connection that has ended has closed its stream once,
exactly as long as no registration failed on a copy. -/
theorem failed_add_keeps_stream_iff (args : Registration) (registry : ClientRegistry)
    (streams : Streams) (faults : StreamFaults) (answers : Answers) (pids : ThreadId → Pid)
    (addr : DocAddr) (others : OtherOps addr) (inputs : List ServiceInput) :
    (KeepsStream registry streams (outcome (args.add registry streams) faults answers).1 ↔
        ¬args.CopyFails registry answers) ∧
      ((run (serviceStep pids) (Service.start addr others) inputs).1.ClosedOnce ↔
        Meets (serviceStep pids) (fun service input => ¬LosesStream pids service input)
          (Service.start addr others) inputs) :=
  ⟨args.keepsStream_iff registry streams faults answers,
    closedOnce_run_iff (Accounted.start addr others) inputs⟩

/-- Streams that always work. -/
def healthy : StreamFaults :=
  ⟨fun _ => true, fun _ => true⟩

/-- Bob registers, and both his paths and his stream are there. -/
def bobRegisters : Registration where
  target := .registry
  pid := 1001
  username := some (ascii "bob")
  role := .write
  fifoC2sPath := some (ascii "FIFO_C2S_1001")
  fifoS2cPath := some (ascii "FIFO_S2C_1001")
  outStream := some 1

/-- Bob logs in, and the last copy of his registration is refused. -/
def bobLosesStream : List ServiceInput :=
  [⟨.arrive 1 ⟨true, true, true, true, true, true, some Username.bob,
      some .write⟩, healthy, []⟩,
    ⟨.act (.step 1), healthy, [true, true, true, true, false]⟩]

/-- The registration closes the stream it failed to keep, and Bob's thread closes it
again. -/
theorem failed_add_closes_stream :
    ¬KeepsStream clientRegistryInit (fun _ => .empty)
        (outcome (bobRegisters.add clientRegistryInit fun _ => .empty) healthy
          [true, true, true, false]).1 ∧
      ¬(run (serviceStep fun _ => 1001) (Service.start 1 ⟨[], rfl⟩)
        bobLosesStream).1.ClosedOnce := by
  constructor
  · intro keeps
    have untouched := (keeps (by decide)).2 1
    exact absurd untouched (by decide)
  · intro closed
    have once := closed 1 (.inr (by decide))
    exact absurd once (by decide)

end CollabMarkdown.Process
