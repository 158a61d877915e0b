import CollabMarkdown.Process.Registry
import CollabMarkdown.Transition.Run

/-!
# Accepting connections

A client asks for a connection with a signal.  The handler leaves its pid in one
variable and raises a flag in another; the main thread sleeps in `pause`, tests
the flag, copies the pid, and clears the two variables in turn.  The handler may
run between any two statements of the main thread, and the variables hold one
request.
-/

namespace CollabMarkdown.Process

open CollabMarkdown.Transition

/-! ## The main thread and the handler -/

/-- The statement that the main thread stands in front of, or sleeps in. -/
inductive MainStatement where
  | setup
  | pause
  | testReceived
  | readPid
  | clearReceived
  | clearPid
  | testPid
  | mallocArgs
  | createThread
  | detach
  deriving DecidableEq, Repr

/-- The flags shared with the handler, and the local `client_pid`. -/
structure Acceptor where
  statement : MainStatement
  connectReceived : Bool
  pendingClientPid : Pid
  clientPid : Pid
  deriving DecidableEq, Repr

/-- The pid of a process that can send a signal. -/
abbrev SenderPid : Type :=
  { pid : Pid // 0 < pid }

/-- The handler runs for a signal of some client, or the main thread executes one
statement.  A call that can fail succeeds or not. -/
inductive AcceptAction where
  | signal (pid : SenderPid)
  | main (succeeds : Bool)
  deriving DecidableEq

/-- What a step shows: a request delivered, one taken, one for which a thread was
started, or nothing. -/
inductive AcceptEvent where
  | delivered (pid : Pid)
  | taken (pid : Pid)
  | started (pid : Pid)
  | idle
  deriving DecidableEq, Repr

namespace Acceptor

/-- The process once it has installed the handler. -/
def start : Acceptor :=
  ⟨.setup, false, 0, 0⟩

/-- The handler.  It wakes the main thread when that sleeps in `pause`. -/
def connectSignalHandler (s : Acceptor) (pid : SenderPid) : Acceptor :=
  { s with
    pendingClientPid := pid
    connectReceived := true
    statement := if s.statement = .pause then .testReceived else s.statement }

/-- One statement of the main thread. -/
def mainStep (s : Acceptor) (succeeds : Bool) : Acceptor × AcceptEvent :=
  match s.statement with
  | .setup => ({ s with statement := .pause }, .idle)
  | .pause => (s, .idle)
  | .testReceived =>
      ({ s with statement := if s.connectReceived then .readPid else .pause }, .idle)
  | .readPid =>
      ({ s with statement := .clearReceived, clientPid := s.pendingClientPid },
        .taken s.pendingClientPid)
  | .clearReceived => ({ s with statement := .clearPid, connectReceived := false }, .idle)
  | .clearPid => ({ s with statement := .testPid, pendingClientPid := 0 }, .idle)
  | .testPid =>
      ({ s with statement := if s.clientPid ≤ 0 then .pause else .mallocArgs }, .idle)
  | .mallocArgs => ({ s with statement := if succeeds then .createThread else .pause }, .idle)
  | .createThread =>
      if succeeds then
        ({ s with statement := .detach }, .started s.clientPid)
      else
        ({ s with statement := .pause }, .idle)
  | .detach => ({ s with statement := .pause }, .idle)

end Acceptor

/-- A delivery of the signal, or a statement of the main thread. -/
def acceptStep (s : Acceptor) : AcceptAction → Acceptor × AcceptEvent
  | .signal pid => (s.connectSignalHandler pid, .delivered pid)
  | .main succeeds => s.mainStep succeeds

/-! ## Requests -/

/-- The pids whose signals have been delivered. -/
def deliveredPids (history : List AcceptEvent) : List Pid :=
  history.filterMap fun
    | .delivered pid => some pid
    | .taken _ | .started _ | .idle => none

/-- The pids the main thread has taken. -/
def takenPids (history : List AcceptEvent) : List Pid :=
  history.filterMap fun
    | .taken pid => some pid
    | .delivered _ | .started _ | .idle => none

/-- The pids that a thread was started for. -/
def startedPids (history : List AcceptEvent) : List Pid :=
  history.filterMap fun
    | .started pid => some pid
    | .delivered _ | .taken _ | .idle => none

theorem deliveredPids_concat (history : List AcceptEvent) (event : AcceptEvent) :
    deliveredPids (history ++ [event]) = deliveredPids history ++ deliveredPids [event] :=
  List.filterMap_append

theorem takenPids_concat (history : List AcceptEvent) (event : AcceptEvent) :
    takenPids (history ++ [event]) = takenPids history ++ takenPids [event] :=
  List.filterMap_append

theorem startedPids_concat (history : List AcceptEvent) (event : AcceptEvent) :
    startedPids (history ++ [event]) = startedPids history ++ startedPids [event] :=
  List.filterMap_append

/-- A statement of the main thread that takes no pid leaves the requests as they are. -/
theorem pids_concat_silent (history : List AcceptEvent) (event : AcceptEvent)
    (silent : deliveredPids [event] = [] ∧ takenPids [event] = []) :
    deliveredPids (history ++ [event]) = deliveredPids history ∧
      takenPids (history ++ [event]) = takenPids history := by
  rw [deliveredPids_concat, takenPids_concat, silent.1, silent.2, List.append_nil,
    List.append_nil]
  exact ⟨rfl, rfl⟩

/-- The request that the main thread has copied, until it has started a thread for it. -/
def Acceptor.inHand (s : Acceptor) : List Pid :=
  if 0 < s.clientPid ∧ (s.statement = .clearReceived ∨ s.statement = .clearPid ∨
      s.statement = .testPid ∨ s.statement = .mallocArgs ∨ s.statement = .createThread) then
    [s.clientPid]
  else
    []

/-- Every request delivered has been taken, or is still recorded. -/
def NoneLost (history : List AcceptEvent) (s : Acceptor) : Prop :=
  ∀ pid ∈ deliveredPids history,
    pid ∈ takenPids history ∨ s.connectReceived = true ∧ s.pendingClientPid = pid

/-- Every pid taken, in turn, got its thread, or is about to. -/
def AllStarted (history : List AcceptEvent) (s : Acceptor) : Prop :=
  takenPids history = startedPids history ++ s.inHand

/-- No `malloc` of a thread's arguments fails, and no `pthread_create`. -/
def StartsThreads (s : Acceptor) : AcceptAction → Prop
  | .signal _ | .main true => True
  | .main false => s.statement ≠ .mallocArgs ∧ s.statement ≠ .createThread

/-- The handler runs only while both variables are clear. -/
def FlagsClear (s : Acceptor) : AcceptAction → Prop
  | .signal _ => s.connectReceived = false ∧ s.pendingClientPid = 0
  | .main _ => True

instance (s : Acceptor) (action : AcceptAction) : Decidable (FlagsClear s action) := by
  cases action <;> unfold FlagsClear <;> infer_instance

instance (s : Acceptor) (action : AcceptAction) : Decidable (StartsThreads s action) := by
  unfold StartsThreads
  split <;> infer_instance

instance (history : List AcceptEvent) (s : Acceptor) : Decidable (NoneLost history s) := by
  unfold NoneLost
  infer_instance

/-! ## The invariant -/

/-- What the flags say at the statements that read and clear them. -/
structure Handover (history : List AcceptEvent) (s : Acceptor) : Prop where
  noneLost : NoneLost history s
  recorded : s.connectReceived = true → 0 < s.pendingClientPid
  reading : s.statement = .readPid → s.connectReceived = true
  clearing : s.statement = .clearReceived →
    s.connectReceived = true ∧ s.pendingClientPid ∈ takenPids history
  cleared : s.statement = .clearPid → s.connectReceived = false ∧ s.pendingClientPid ≠ 0

theorem handover_start : Handover [] Acceptor.start := by
  constructor <;> simp [NoneLost, deliveredPids, Acceptor.start]

namespace Handover

variable {history : List AcceptEvent} {s : Acceptor}

/-- With the flag down, every request delivered so far has been taken. -/
theorem all_taken (handover : Handover history s) (down : s.connectReceived = false) :
    ∀ pid ∈ deliveredPids history, pid ∈ takenPids history := by
  intro pid member
  rcases handover.noneLost pid member with taken | ⟨raised, -⟩
  · exact taken
  · rw [down] at raised
    contradiction

/-- A request that finds both variables clear is recorded. -/
theorem signal (handover : Handover history s) (pid : SenderPid)
    (clear : s.connectReceived = false ∧ s.pendingClientPid = 0) :
    Handover (history ++ [.delivered pid]) (s.connectSignalHandler pid) := by
  obtain ⟨down, zero⟩ := clear
  have delivered : deliveredPids (history ++ [.delivered pid]) =
      deliveredPids history ++ [pid.val] := deliveredPids_concat ..
  have taken : takenPids (history ++ [.delivered pid]) = takenPids history :=
    (takenPids_concat ..).trans (List.append_nil _)
  constructor
  · intro other member
    rw [delivered, List.mem_append, List.mem_singleton] at member
    rw [taken]
    rcases member with older | rfl
    · exact .inl (handover.all_taken down other older)
    · exact .inr ⟨rfl, rfl⟩
  · intro _
    exact pid.property
  · intro _
    rfl
  · intro here
    have before : s.statement = .clearReceived := by
      simp only [Acceptor.connectSignalHandler] at here
      split at here
      · contradiction
      · exact here
    rw [(handover.clearing before).1] at down
    contradiction
  · intro here
    have before : s.statement = .clearPid := by
      simp only [Acceptor.connectSignalHandler] at here
      split at here
      · contradiction
      · exact here
    exact absurd zero (handover.cleared before).2

/-- A statement that shows nothing and leaves the flags alone. -/
theorem goto (handover : Handover history s) {event : AcceptEvent} {statement : MainStatement}
    (silent : deliveredPids [event] = [] ∧ takenPids [event] = [])
    (reading : statement = .readPid → s.connectReceived = true)
    (elsewhere : statement ≠ .clearReceived ∧ statement ≠ .clearPid) :
    Handover (history ++ [event]) { s with statement } := by
  obtain ⟨delivered, taken⟩ := pids_concat_silent history event silent
  constructor
  · intro pid member
    rw [delivered] at member
    rw [taken]
    exact handover.noneLost pid member
  · exact handover.recorded
  · exact reading
  · exact fun here => absurd here elsewhere.1
  · exact fun here => absurd here elsewhere.2

/-- The main thread takes the pid that is recorded. -/
theorem take (handover : Handover history s) (here : s.statement = .readPid) :
    Handover (history ++ [.taken s.pendingClientPid])
      { s with statement := .clearReceived, clientPid := s.pendingClientPid } := by
  have raised := handover.reading here
  have delivered : deliveredPids (history ++ [.taken s.pendingClientPid]) =
      deliveredPids history := (deliveredPids_concat ..).trans (List.append_nil _)
  have taken : takenPids (history ++ [.taken s.pendingClientPid]) =
      takenPids history ++ [s.pendingClientPid] := takenPids_concat ..
  constructor
  · intro pid member
    rw [delivered] at member
    rw [taken, List.mem_append, List.mem_singleton]
    rcases handover.noneLost pid member with older | ⟨-, same⟩
    · exact .inl (.inl older)
    · exact .inl (.inr same.symm)
  · exact handover.recorded
  · intro _
    exact raised
  · intro _
    rw [taken]
    exact ⟨raised, List.mem_append_right _ (List.mem_singleton_self _)⟩
  · intro there
    contradiction

/-- What was recorded when the flag goes down has been taken. -/
theorem clearReceived (handover : Handover history s) (here : s.statement = .clearReceived) :
    Handover (history ++ [.idle]) { s with statement := .clearPid, connectReceived := false } := by
  obtain ⟨raised, pidTaken⟩ := handover.clearing here
  obtain ⟨delivered, taken⟩ := pids_concat_silent history .idle ⟨rfl, rfl⟩
  constructor
  · intro pid member
    rw [delivered] at member
    rw [taken]
    rcases handover.noneLost pid member with older | ⟨-, same⟩
    · exact .inl older
    · exact .inl (same ▸ pidTaken)
  · intro up
    contradiction
  · intro there
    contradiction
  · intro there
    contradiction
  · intro _
    exact ⟨rfl, (handover.recorded raised).ne'⟩

theorem clearPid (handover : Handover history s) (here : s.statement = .clearPid) :
    Handover (history ++ [.idle]) { s with statement := .testPid, pendingClientPid := 0 } := by
  obtain ⟨down, -⟩ := handover.cleared here
  obtain ⟨delivered, taken⟩ := pids_concat_silent history .idle ⟨rfl, rfl⟩
  constructor
  · intro pid member
    rw [delivered] at member
    rw [taken]
    exact .inl (handover.all_taken down pid member)
  · intro up
    rw [down] at up
    contradiction
  · intro there
    contradiction
  · intro there
    contradiction
  · intro there
    contradiction

theorem main (handover : Handover history s) (succeeds : Bool) :
    Handover (history ++ [(s.mainStep succeeds).2]) (s.mainStep succeeds).1 := by
  unfold Acceptor.mainStep
  cases here : s.statement with
  | setup | detach => exact handover.goto ⟨rfl, rfl⟩ (by simp) (by simp)
  | pause =>
      exact handover.goto ⟨rfl, rfl⟩ handover.reading (by simp [here])
  | testReceived =>
      apply handover.goto ⟨rfl, rfl⟩
      · intro there
        by_contra down
        simp [down] at there
      · cases s.connectReceived <;> simp
  | readPid => exact handover.take here
  | clearReceived => exact handover.clearReceived here
  | clearPid => exact handover.clearPid here
  | testPid =>
      apply handover.goto ⟨rfl, rfl⟩
      · intro there
        split at there <;> contradiction
      · split <;> simp
  | mallocArgs =>
      apply handover.goto ⟨rfl, rfl⟩
      · intro there
        cases succeeds <;> contradiction
      · cases succeeds <;> simp
  | createThread => cases succeeds <;> exact handover.goto ⟨rfl, rfl⟩ (by simp) (by simp)

theorem step (handover : Handover history s) (action : AcceptAction)
    (clear : FlagsClear s action) :
    Handover (history ++ [(acceptStep s action).2]) (acceptStep s action).1 := by
  cases action with
  | signal pid => exact handover.signal pid clear
  | main succeeds => exact handover.main succeeds

end Handover

/-! ## Threads -/

namespace Acceptor

/-- The main thread starts threads only for pids that it has tested. -/
def Tested (s : Acceptor) : Prop :=
  s.statement = .mallocArgs ∨ s.statement = .createThread → 0 < s.clientPid

theorem Tested.connectSignalHandler {s : Acceptor} (tested : s.Tested) (pid : SenderPid)
    {statement : MainStatement}
    (woken : statement = s.statement ∨ s.statement = .pause ∧ statement = .testReceived) :
    { s.connectSignalHandler pid with statement }.Tested := by
  rcases woken with rfl | ⟨-, rfl⟩
  · exact tested
  · simp [Tested]

theorem Tested.mainStep {s : Acceptor} (tested : s.Tested) (succeeds : Bool) :
    (s.mainStep succeeds).1.Tested := by
  unfold Acceptor.mainStep
  cases here : s.statement with
  | setup | pause | readPid | clearReceived | clearPid | detach => simp [Tested, here]
  | testReceived => cases received : s.connectReceived <;> simp [Tested]
  | testPid =>
      intro _
      by_contra negative
      simp_all
  | mallocArgs =>
      intro _
      exact tested (.inl here)
  | createThread => cases succeeds <;> simp [Tested]

end Acceptor

/-- Each pid taken gets its thread in turn. -/
structure Starting (history : List AcceptEvent) (s : Acceptor) : Prop where
  allStarted : AllStarted history s
  tested : s.Tested

namespace Starting

variable {history : List AcceptEvent} {s : Acceptor}

theorem signal (starting : Starting history s) (pid : SenderPid) :
    Starting (history ++ [.delivered pid]) (s.connectSignalHandler pid) := by
  have same : (s.connectSignalHandler pid).inHand = s.inHand := by
    cases here : s.statement <;> simp [Acceptor.connectSignalHandler, Acceptor.inHand, here]
  constructor
  · have started := starting.allStarted
    rw [AllStarted, same]
    simpa [AllStarted, takenPids, startedPids] using started
  · apply starting.tested.connectSignalHandler pid
    by_cases asleep : s.statement = .pause <;> simp [asleep]

theorem main (starting : Starting history s) (handover : Handover history s) {succeeds : Bool}
    (starts : StartsThreads s (.main succeeds)) :
    Starting (history ++ [(s.mainStep succeeds).2]) (s.mainStep succeeds).1 := by
  obtain ⟨started, tested⟩ := starting
  refine ⟨?_, tested.mainStep succeeds⟩
  have recorded : s.statement = .readPid → 0 < s.pendingClientPid := fun here =>
    handover.recorded (handover.reading here)
  obtain ⟨statement, connectReceived, pendingClientPid, clientPid⟩ := s
  unfold AllStarted at started ⊢
  rw [takenPids_concat, startedPids_concat, started]
  cases statement with
  | setup | pause | clearReceived | clearPid | detach =>
      simp [Acceptor.mainStep, Acceptor.inHand, takenPids, startedPids]
  | testReceived =>
      cases connectReceived <;>
        simp [Acceptor.mainStep, Acceptor.inHand, takenPids, startedPids]
  | readPid =>
      simp [Acceptor.mainStep, Acceptor.inHand, takenPids, startedPids, recorded rfl]
  | testPid =>
      rcases lt_or_ge 0 clientPid with positive | negative
      · simp [Acceptor.mainStep, Acceptor.inHand, takenPids, startedPids, positive]
      · simp [Acceptor.mainStep, Acceptor.inHand, takenPids, startedPids, negative,
          not_lt.mpr negative]
  | mallocArgs =>
      cases succeeds with
      | true => simp [Acceptor.mainStep, Acceptor.inHand, takenPids, startedPids]
      | false => exact absurd rfl starts.1
  | createThread =>
      have positive : 0 < clientPid := tested (.inr rfl)
      cases succeeds with
      | true => simp [Acceptor.mainStep, Acceptor.inHand, takenPids, startedPids, positive]
      | false => exact absurd rfl starts.2

end Starting

/-- While every signal finds both variables clear, no request is lost; and every pid taken
gets its thread, unless the memory for its arguments or the thread itself cannot be had. -/
theorem no_request_lost (actions : List AcceptAction)
    (clear : Meets acceptStep FlagsClear Acceptor.start actions) :
    let s := (run acceptStep Acceptor.start actions).1
    let history := (run acceptStep Acceptor.start actions).2
    NoneLost history s ∧
      (Meets acceptStep StartsThreads Acceptor.start actions → AllStarted history s) := by
  intro s history
  constructor
  · exact (clear.history Handover
      (fun _ _ action condition handover => handover.step action condition)
      handover_start).noneLost
  · intro starts
    apply ((clear.and starts).history
      (fun history s => Handover history s ∧ Starting history s) ?_
      ⟨handover_start, rfl, by simp [Acceptor.Tested, Acceptor.start]⟩).2.allStarted
    rintro history s action ⟨condition, succeeds⟩ ⟨handover, starting⟩
    refine ⟨handover.step action condition, ?_⟩
    cases action with
    | signal pid => exact starting.signal pid
    | main => exact starting.main handover succeeds

/-- Two clients that ask for a connection. -/
def firstPid : SenderPid :=
  ⟨100, by decide⟩

/-- The client that asks while the first request is being taken. -/
def secondPid : SenderPid :=
  ⟨200, by decide⟩

/-- The second request comes after the first one was taken and cleared, and gets its thread
after that one. -/
def inTurn : List AcceptAction :=
  [.main true, .signal firstPid, .main true, .main true, .main true, .main true,
    .signal secondPid] ++ List.replicate 11 (.main true)

theorem no_request_lost_inTurn :
    let s := (run acceptStep Acceptor.start inTurn).1
    let history := (run acceptStep Acceptor.start inTurn).2
    NoneLost history s ∧ AllStarted history s :=
  ⟨(no_request_lost inTurn (by decide)).1, (no_request_lost inTurn (by decide)).2 (by decide)⟩

/-- The second request comes before the main thread has looked. -/
def overwriting : List AcceptAction :=
  [.main true, .signal firstPid, .signal secondPid]

/-- The second request comes while the variables of the first one are cleared. -/
def erasing : List AcceptAction :=
  [.main true, .signal firstPid, .main true, .main true, .signal secondPid, .main true]

theorem request_is_lost :
    ¬NoneLost (run acceptStep Acceptor.start overwriting).2
        (run acceptStep Acceptor.start overwriting).1 ∧
      ¬NoneLost (run acceptStep Acceptor.start erasing).2
        (run acceptStep Acceptor.start erasing).1 := by
  decide

end CollabMarkdown.Process
