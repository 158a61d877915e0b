import CollabMarkdown.Process.Connections

/-!
# What a call can do

Each call of a client or of a thread, by what it does to the files and to where the party
stands.  Only the signal of a thread reaches its client.
-/

namespace CollabMarkdown.Process

open CollabMarkdown.CString
open CollabMarkdown.Posix

/-! ## The main thread -/

/-- The threads that an event of the main thread starts. -/
def AcceptEvent.pids : AcceptEvent → List Pid
  | .started pid => [pid]
  | .delivered _ | .taken _ | .idle => []

/-- A statement of the main thread may start a thread. -/
theorem connectStep_main (s : Connections) (succeeds : Bool) :
    (s.acceptor.mainStep succeeds).2.pids = [] ∧
        connectStep s (.main succeeds) =
          { s with acceptor := (s.acceptor.mainStep succeeds).1 } ∨
      ∃ pid, (s.acceptor.mainStep succeeds).2.pids = [pid] ∧
        connectStep s (.main succeeds) =
          { s with
            acceptor := (s.acceptor.mainStep succeeds).1
            threads := Function.update s.threads s.started (some ⟨pid, .unlinkingC2s⟩)
            started := s.started + 1 } := by
  simp only [connectStep]
  cases (s.acceptor.mainStep succeeds).2 with
  | started pid => exact .inr ⟨pid, rfl, rfl⟩
  | delivered _ | taken _ | idle => exact .inl ⟨rfl, rfl⟩

/-! ## A client -/

/-- A call of a client: the files, where it stands, and its signal, before and after. -/
inductive ClientMove (pid : Pid) (fs : Fifos Text Party) :
    ClientPoint → Bool → Fifos Text Party → ClientPoint → Bool → Prop where
  | stay (point : ClientPoint) (ready : Bool) : ClientMove pid fs point ready fs point ready
  | block (ready : Bool) : ClientMove pid fs .blocking ready fs .asking ready
  | ask (ready : Bool) : ClientMove pid fs .asking ready fs .waiting ready
  | wake : ClientMove pid fs .waiting true fs .openingC2s false
  | openC2s {c2s : Fifo} (ready : Bool) (found : fs.entry (c2sPath pid) = some c2s) :
      ClientMove pid fs .openingC2s ready (fs.arrive c2s .write (.client pid))
        (.meetingC2s c2s (fs.ticket c2s .write)) ready
  | meetC2s {c2s : Fifo} {ticket : Nat} (ready : Bool) (met : fs.met c2s .write ticket = true) :
      ClientMove pid fs (.meetingC2s c2s ticket) ready fs (.openingS2c c2s) ready
  | openS2c {s2c : Fifo} (c2s : Fifo) (ready : Bool)
      (found : fs.entry (s2cPath pid) = some s2c) :
      ClientMove pid fs (.openingS2c c2s) ready (fs.arrive s2c .read (.client pid))
        (.meetingS2c c2s s2c (fs.ticket s2c .read)) ready
  | meetS2c {c2s s2c : Fifo} {ticket : Nat} (ready : Bool)
      (met : fs.met s2c .read ticket = true) :
      ClientMove pid fs (.meetingS2c c2s s2c ticket) ready fs (.connected c2s s2c) ready
  | leave {point : ClientPoint} (ready : Bool) (alive : point ≠ .killed) :
      ClientMove pid fs point ready (fs.releaseAll (.client pid)) .gone ready

/-- A call of a client changes nothing else, but that it may ask the server. -/
def ClientMoved (s : Connections) (pid : ClientPid) (s' : Connections) : Prop :=
  ∃ files point ready asked,
    ClientMove pid s.files (s.clients pid) (s.ready pid) files point ready ∧
    (asked = [] ∨ asked = [pid] ∧ s.clients pid = .asking ∧ point = .waiting) ∧
    s' = { s with
      queued := s.queued ++ asked
      files
      clients := Function.update s.clients pid point
      ready := Function.update s.ready pid ready }

theorem ClientMove.moved {s : Connections} {pid : ClientPid} {point point' : ClientPoint}
    {files : Fifos Text Party} (here : s.clients pid = point)
    (move : ClientMove pid s.files point (s.ready pid) files point' (s.ready pid)) :
    ClientMoved s pid ({ s with files }.setClient pid point') := by
  subst here
  exact ⟨_, _, _, [], move, .inl rfl, by simp [Connections.setClient]⟩

theorem clientMoved_leave {s : Connections} {pid : ClientPid} (alive : s.clients pid ≠ .killed) :
    ClientMoved s pid (s.leave pid) :=
  ClientMove.moved rfl (.leave _ alive)

theorem clientMoved_self (s : Connections) (pid : ClientPid) : ClientMoved s pid s :=
  ⟨_, _, _, [], .stay _ _, .inl rfl, by simp⟩

theorem clientStep_moved (s : Connections) (pid : ClientPid) (succeeds : Bool) :
    ClientMoved s pid (s.clientStep pid succeeds) := by
  unfold Connections.clientStep
  cases here : s.clients pid with
  | blocking =>
      cases succeeds with
      | false => exact clientMoved_leave (by simp [here])
      | true => exact ClientMove.moved here (.block _)
  | asking =>
      cases succeeds with
      | false => exact clientMoved_leave (by simp [here])
      | true =>
          refine ⟨s.files, .waiting, s.ready pid, [pid], ?_, .inr ⟨rfl, here, rfl⟩,
            by simp [Connections.setClient]⟩
          rw [here]
          exact .ask _
  | waiting =>
      cases succeeds with
      | false => exact clientMoved_leave (by simp [here])
      | true =>
          cases ready : s.ready pid with
          | false => simpa [ready] using clientMoved_self s pid
          | true =>
              refine ⟨s.files, .openingC2s, false, [], ?_, .inl rfl,
                by simp [Connections.setClient]⟩
              rw [here, ready]
              exact .wake
  | openingC2s =>
      simp only [Connections.clientOpen]
      split
      · rename_i found
        exact ClientMove.moved here (.openC2s _ found)
      · exact clientMoved_leave (by simp [here])
  | meetingC2s c2s ticket =>
      cases succeeds with
      | false => exact clientMoved_leave (by simp [here])
      | true =>
          by_cases met : s.files.met c2s .write ticket = true
          · simpa [met] using ClientMove.moved here (.meetC2s _ met)
          · simpa [met] using clientMoved_self s pid
  | openingS2c c2s =>
      simp only [Connections.clientOpen]
      split
      · rename_i found
        exact ClientMove.moved here (.openS2c _ _ found)
      · exact clientMoved_leave (by simp [here])
  | meetingS2c c2s s2c ticket =>
      cases succeeds with
      | false => exact clientMoved_leave (by simp [here])
      | true =>
          by_cases met : s.files.met s2c .read ticket = true
          · simpa [met] using ClientMove.moved here (.meetS2c _ met)
          · simpa [met] using clientMoved_self s pid
  | connected c2s s2c => exact clientMoved_leave (by simp [here])
  | gone | killed => exact clientMoved_self s pid

/-! ## A thread -/

/-- A thread that cannot go on, or has served its client, and what it then has to undo. -/
inductive ThreadPoint.Ends : ThreadPoint → List Teardown → Prop where
  | makingC2s : Ends .makingC2s []
  | makingS2c : Ends .makingS2c [.unlinkC2s]
  | signalling : Ends .signalling Connections.cleanupFifoPair
  | openingC2s : Ends .openingC2s Connections.cleanupFifoPair
  | openingS2c (c2s : Fifo) : Ends (.openingS2c c2s) (.closeC2s c2s :: Connections.cleanupFifoPair)
  | served (c2s s2c : Fifo) : Ends (.serving c2s s2c)
      (Connections.cleanupFifoPair ++ [.closeS2c s2c, .closeC2s c2s])
  | refused (c2s s2c : Fifo) : Ends (.serving c2s s2c)
      ([.closeC2s c2s, .closeS2c s2c] ++ Connections.cleanupFifoPair)

/-- A call of a thread other than its signal: the files and where it stands, before and
after. -/
inductive ThreadMove (t : ThreadId) (pid : Pid) (fs : Fifos Text Party) :
    ThreadPoint → Fifos Text Party → ThreadPoint → Prop where
  | stay (point : ThreadPoint) : ThreadMove t pid fs point fs point
  | unlinkC2s : ThreadMove t pid fs .unlinkingC2s (fs.unlink (c2sPath pid)) .unlinkingS2c
  | unlinkS2c : ThreadMove t pid fs .unlinkingS2c (fs.unlink (s2cPath pid)) .makingC2s
  | makeC2s {fs' : Fifos Text Party} (made : fs.mkfifo (c2sPath pid) = some fs') :
      ThreadMove t pid fs .makingC2s fs' .makingS2c
  | makeS2c {fs' : Fifos Text Party} (made : fs.mkfifo (s2cPath pid) = some fs') :
      ThreadMove t pid fs .makingS2c fs' .signalling
  | openC2s {c2s : Fifo} (found : fs.entry (c2sPath pid) = some c2s) :
      ThreadMove t pid fs .openingC2s (fs.arrive c2s .read (.thread t))
        (.meetingC2s c2s (fs.ticket c2s .read))
  | meetC2s {c2s : Fifo} {ticket : Nat} (met : fs.met c2s .read ticket = true) :
      ThreadMove t pid fs (.meetingC2s c2s ticket) fs (.openingS2c c2s)
  | interruptC2s (c2s : Fifo) (ticket : Nat) :
      ThreadMove t pid fs (.meetingC2s c2s ticket) (fs.release c2s .read (.thread t))
        (.ending Connections.cleanupFifoPair)
  | openS2c {s2c : Fifo} (c2s : Fifo) (found : fs.entry (s2cPath pid) = some s2c) :
      ThreadMove t pid fs (.openingS2c c2s) (fs.arrive s2c .write (.thread t))
        (.meetingS2c c2s s2c (fs.ticket s2c .write))
  | meetS2c {c2s s2c : Fifo} {ticket : Nat} (met : fs.met s2c .write ticket = true) :
      ThreadMove t pid fs (.meetingS2c c2s s2c ticket) fs (.serving c2s s2c)
  | interruptS2c (c2s s2c : Fifo) (ticket : Nat) :
      ThreadMove t pid fs (.meetingS2c c2s s2c ticket) (fs.release s2c .write (.thread t))
        (.ending (.closeC2s c2s :: Connections.cleanupFifoPair))
  | finish {point : ThreadPoint} {rest : List Teardown} (ends : point.Ends rest) :
      ThreadMove t pid fs point fs (.ending rest)
  | undo (first : Teardown) (rest : List Teardown) :
      ThreadMove t pid fs (.ending (first :: rest)) (Connections.undo fs t pid first)
        (.ending rest)

/-- A call of a thread changes nothing else, but for the signal. -/
theorem threadCall_cases {s : Connections} {t : ThreadId} {pid : Pid} {point : ThreadPoint}
    (found : s.threads t = some ⟨pid, point⟩) (succeeds : Bool) :
    point = .signalling ∧
        s.threadCall t succeeds = (s.signalReady pid).setThread t pid .openingC2s ∨
      ∃ files point', ThreadMove t pid s.files point files point' ∧
        s.threadCall t succeeds =
          { s with files, threads := Function.update s.threads t (some ⟨pid, point'⟩) } := by
  have stayed : ∃ files point', ThreadMove t pid s.files point files point' ∧
      s = { s with files, threads := Function.update s.threads t (some ⟨pid, point'⟩) } :=
    ⟨_, _, .stay _, by simp [← found]⟩
  simp only [Connections.threadCall, found]
  cases point with
  | unlinkingC2s => exact .inr ⟨_, _, .unlinkC2s, rfl⟩
  | unlinkingS2c => exact .inr ⟨_, _, .unlinkS2c, rfl⟩
  | makingC2s =>
      simp only [Connections.threadMake]
      split
      · rename_i made
        exact .inr ⟨_, _, .makeC2s made, rfl⟩
      · exact .inr ⟨_, _, .finish .makingC2s, rfl⟩
  | makingS2c =>
      simp only [Connections.threadMake]
      split
      · rename_i made
        exact .inr ⟨_, _, .makeS2c made, rfl⟩
      · exact .inr ⟨_, _, .finish .makingS2c, rfl⟩
  | signalling =>
      cases succeeds with
      | false => exact .inr ⟨_, _, .finish .signalling, rfl⟩
      | true => exact .inl ⟨rfl, rfl⟩
  | openingC2s =>
      simp only [Connections.threadOpen]
      split
      · rename_i entry
        exact .inr ⟨_, _, .openC2s entry, rfl⟩
      · exact .inr ⟨_, _, .finish .openingC2s, rfl⟩
  | meetingC2s c2s ticket =>
      cases succeeds with
      | false => exact .inr ⟨_, _, .interruptC2s c2s ticket, rfl⟩
      | true =>
          by_cases met : s.files.met c2s .read ticket = true
          · exact .inr ⟨_, _, .meetC2s met, by simp [met, Connections.setThread]⟩
          · exact .inr (by simpa [met] using stayed)
  | openingS2c c2s =>
      simp only [Connections.threadOpen]
      split
      · rename_i entry
        exact .inr ⟨_, _, .openS2c c2s entry, rfl⟩
      · exact .inr ⟨_, _, .finish (.openingS2c c2s), rfl⟩
  | meetingS2c c2s s2c ticket =>
      cases succeeds with
      | false => exact .inr ⟨_, _, .interruptS2c c2s s2c ticket, rfl⟩
      | true =>
          by_cases met : s.files.met s2c .write ticket = true
          · exact .inr ⟨_, _, .meetS2c met, by simp [met, Connections.setThread]⟩
          · exact .inr (by simpa [met] using stayed)
  | serving c2s s2c =>
      cases succeeds with
      | false => exact .inr ⟨_, _, .finish (.refused c2s s2c), rfl⟩
      | true => exact .inr ⟨_, _, .finish (.served c2s s2c), rfl⟩
  | ending rest =>
      cases rest with
      | nil => exact .inr stayed
      | cons first rest => exact .inr ⟨_, _, .undo first rest, rfl⟩

/-- A client that has blocked the signal is not ended by it. -/
theorem signalReady_of_ne {s : Connections} {pid : Pid} (alive : s.clients pid ≠ .blocking) :
    ∃ ready, (s.clients pid = .waiting ∨ s.ready pid = true → ready = true) ∧
      s.signalReady pid = { s with ready := Function.update s.ready pid ready } := by
  unfold Connections.signalReady
  cases here : s.clients pid with
  | blocking => exact absurd here alive
  | gone | killed => exact ⟨s.ready pid, by simp, by simp⟩
  | asking | waiting | openingC2s | meetingC2s _ _ | openingS2c _ | meetingS2c _ _ _
  | connected _ _ => exact ⟨true, fun _ => rfl, rfl⟩

end CollabMarkdown.Process
