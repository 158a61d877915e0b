import CollabMarkdown.Process.Pipes
import CollabMarkdown.Transition.Progress

/-!
# A client and its thread get through

Client and thread open the two FIFOs in the same order, so none of them waits for an end
that the other one will open later than the one it waits at itself.  While both keep
stepping and no call of theirs fails, both get to the end of the handshake, whatever the
rest of the system does.
-/

namespace CollabMarkdown.Process

open CollabMarkdown.CString
open CollabMarkdown.Posix
open CollabMarkdown.Transition

/-! ## Ranks -/

/-- The calls that a client has in front of it until it is connected. -/
def ClientPoint.rank : ClientPoint → Nat
  | .blocking => 7
  | .asking => 6
  | .waiting => 5
  | .openingC2s => 4
  | .meetingC2s _ _ => 3
  | .openingS2c _ => 2
  | .meetingS2c _ _ _ => 1
  | .connected _ _ | .gone | .killed => 0

/-- The calls that a thread has in front of it until it serves. -/
def ThreadPoint.rank : ThreadPoint → Nat
  | .unlinkingC2s => 9
  | .unlinkingS2c => 8
  | .makingC2s => 7
  | .makingS2c => 6
  | .signalling => 5
  | .openingC2s => 4
  | .meetingC2s _ _ => 3
  | .openingS2c _ => 2
  | .meetingS2c _ _ _ => 1
  | .serving _ _ | .ending _ => 0

namespace Connections

/-- The client does not wait. -/
def ClientReady (s : Connections) (pid : Pid) : Prop :=
  match s.clients pid with
  | .waiting => s.ready pid = true
  | .openingC2s | .openingS2c _ => True
  | .meetingC2s c2s ticket => s.files.met c2s .write ticket = true
  | .meetingS2c _ s2c ticket => s.files.met s2c .read ticket = true
  | .blocking | .asking | .connected _ _ | .gone | .killed => False

/-- A thread that has got so far does not wait. -/
def PointReady (files : Fifos Text Party) : ThreadPoint → Prop
  | .unlinkingC2s | .unlinkingS2c | .makingC2s | .makingS2c | .signalling | .openingC2s
  | .openingS2c _ => True
  | .meetingC2s c2s ticket => files.met c2s .read ticket = true
  | .meetingS2c _ s2c ticket => files.met s2c .write ticket = true
  | .serving _ _ | .ending _ => False

/-- A client and its thread, none of which has given up. -/
structure Attempt (s : Connections) (t : ThreadId) (pid : Pid) (point : ThreadPoint) : Prop where
  orderly : s.Orderly
  found : s.threads t = some ⟨pid, point⟩
  going : ∀ rest, point ≠ .ending rest
  present : s.clients pid ≠ .gone

namespace Attempt

variable {s : Connections} {t : ThreadId} {pid : Pid} {point : ThreadPoint}

theorem paired (attempt : s.Attempt t pid point) :
    Paired s.files t pid (s.clients pid) (s.ready pid) point :=
  attempt.orderly.paired t pid point attempt.found

theorem asked (attempt : s.Attempt t pid point) : (s.clients pid).Asked :=
  (attempt.orderly.admitted.thread_asked attempt.found).2

/-- One of the two can always step, until one gets through. -/
theorem someone (attempt : s.Attempt t pid point)
    (client : ∀ c2s s2c, s.clients pid ≠ .connected c2s s2c)
    (thread : ∀ c2s s2c, point ≠ .serving c2s s2c) :
    s.ClientReady pid ∨ PointReady s.files point := by
  have paired := attempt.paired
  have asked := attempt.asked
  have told (signalled : point.Signalled) := paired.signalled signalled
  cases point with
  | unlinkingC2s | unlinkingS2c | makingC2s | makingS2c | signalling | openingC2s
  | openingS2c _ => exact .inr trivial
  | serving c2s s2c => exact absurd rfl (thread c2s s2c)
  | ending rest => exact absurd rfl (attempt.going rest)
  | meetingC2s c2s ticket =>
      obtain ⟨_, -, rendezvous⟩ := paired.present .c2s rfl
      cases here : s.clients pid with
      | blocking | asking => rw [here] at asked; exact asked.elim
      | gone => exact absurd here attempt.present
      | killed => exact absurd here paired.alive
      | connected c2s' s2c => exact absurd here (client c2s' s2c)
      | waiting => exact .inl (by simpa [ClientReady, here] using told trivial here)
      | openingC2s | openingS2c _ => exact .inl (by simp [ClientReady, here])
      | meetingC2s _ _ | meetingS2c _ _ _ =>
          rw [here] at rendezvous
          exact .inr (rendezvous.met_of_present rfl rfl)
  | meetingS2c c2s s2c ticket =>
      obtain ⟨_, -, first⟩ := paired.present .c2s rfl
      obtain ⟨_, -, second⟩ := paired.present .s2c rfl
      cases here : s.clients pid with
      | blocking | asking => rw [here] at asked; exact asked.elim
      | gone => exact absurd here attempt.present
      | killed => exact absurd here paired.alive
      | connected c2s' s2c' => exact absurd here (client c2s' s2c')
      | waiting => exact .inl (by simpa [ClientReady, here] using told trivial here)
      | openingC2s | openingS2c _ => exact .inl (by simp [ClientReady, here])
      | meetingC2s _ _ =>
          rw [here] at first
          refine .inl ?_
          rw [ClientReady, here]
          exact first.met_of_present rfl rfl
      | meetingS2c _ _ _ =>
          rw [here] at second
          exact .inr (second.met_of_present rfl rfl)

/-- A client that has seen the signal finds both paths. -/
theorem entry (attempt : s.Attempt t pid point)
    (busy : s.clients pid ≠ .waiting ∧ s.clients pid ≠ .gone) (d : Direction) :
    ∃ fifo, s.files.entry (d.path pid) = some fifo := by
  have late := attempt.paired.client_quiet busy
  apply attempt.paired.entry_of_signalled
  cases point with
  | unlinkingC2s | unlinkingS2c | makingC2s | makingS2c | signalling => exact late trivial
  | openingC2s | meetingC2s _ _ | openingS2c _ | meetingS2c _ _ _ | serving _ _ => trivial
  | ending rest => exact attempt.going rest rfl

/-- A call of the client that does not fail takes it on, unless it waits. -/
theorem client_call {client : ClientPid} (attempt : s.Attempt t client point)
    (before : ∀ c2s s2c, s.clients client ≠ .connected c2s s2c) :
    ((s.clientStep client true).clients client ≠ .gone ∧
        ((s.clientStep client true).clients client).rank < (s.clients client).rank) ∨
      ¬s.ClientReady client ∧ s.clientStep client true = s := by
  have asked := attempt.asked
  unfold clientStep ClientReady
  cases here : s.clients client with
  | blocking | asking => rw [here] at asked; exact asked.elim
  | gone => exact absurd here attempt.present
  | killed => exact absurd here attempt.paired.alive
  | connected c2s s2c => exact absurd here (before c2s s2c)
  | waiting =>
      cases ready : s.ready client with
      | false => exact .inr (by simp)
      | true => exact .inl (by simp [setClient, ClientPoint.rank])
  | openingC2s =>
      obtain ⟨fifo, found⟩ := attempt.entry (by simp [here]) .c2s
      rw [Direction.path] at found
      exact .inl (by simp [clientOpen, found, setClient, ClientPoint.rank])
  | openingS2c c2s =>
      obtain ⟨fifo, found⟩ := attempt.entry (by simp [here]) .s2c
      rw [Direction.path] at found
      exact .inl (by simp [clientOpen, found, setClient, ClientPoint.rank])
  | meetingC2s c2s ticket =>
      by_cases met : s.files.met c2s .write ticket = true
      · exact .inl (by simp [met, setClient, ClientPoint.rank])
      · exact .inr (by simp [met])
  | meetingS2c c2s s2c ticket =>
      by_cases met : s.files.met s2c .read ticket = true
      · exact .inl (by simp [met, setClient, ClientPoint.rank])
      · exact .inr (by simp [met])

/-- So does a call of the thread. -/
theorem thread_call (attempt : s.Attempt t pid point)
    (before : ∀ c2s s2c, point ≠ .serving c2s s2c) :
    (∃ point', (s.threadCall t true).threads t = some ⟨pid, point'⟩ ∧
        (∀ rest, point' ≠ .ending rest) ∧ point'.rank < point.rank) ∨
      ¬PointReady s.files point ∧ s.threadCall t true = s := by
  have paired := attempt.paired
  unfold threadCall
  rw [attempt.found]
  cases point with
  | unlinkingC2s | unlinkingS2c | signalling =>
      exact .inl ⟨_, Function.update_self .., by simp, by simp [ThreadPoint.rank]⟩
  | makingC2s =>
      have made := Fifos.mkfifo_of_absent (paired.absent .c2s rfl)
      rw [Direction.path] at made
      exact .inl ⟨.makingS2c, by simp [threadMake, made, setThread], by simp,
        by simp [ThreadPoint.rank]⟩
  | makingS2c =>
      have made := Fifos.mkfifo_of_absent (paired.absent .s2c rfl)
      rw [Direction.path] at made
      exact .inl ⟨.signalling, by simp [threadMake, made, setThread], by simp,
        by simp [ThreadPoint.rank]⟩
  | openingC2s =>
      obtain ⟨fifo, found⟩ := paired.entry_of_signalled trivial .c2s
      rw [Direction.path] at found
      exact .inl ⟨_, by simp [threadOpen, found, setThread]; rfl, by simp,
        by simp [ThreadPoint.rank]⟩
  | openingS2c c2s =>
      obtain ⟨fifo, found⟩ := paired.entry_of_signalled trivial .s2c
      rw [Direction.path] at found
      exact .inl ⟨_, by simp [threadOpen, found, setThread]; rfl, by simp,
        by simp [ThreadPoint.rank]⟩
  | meetingC2s c2s ticket =>
      by_cases met : s.files.met c2s .read ticket = true
      · exact .inl ⟨.openingS2c c2s, by simp [met, setThread], by simp, by simp [ThreadPoint.rank]⟩
      · exact .inr ⟨met, by simp [met]⟩
  | meetingS2c c2s s2c ticket =>
      by_cases met : s.files.met s2c .write ticket = true
      · exact .inl ⟨.serving c2s s2c, by simp [met, setThread], by simp,
          by simp [ThreadPoint.rank]⟩
      · exact .inr ⟨met, by simp [met]⟩
  | serving c2s s2c => exact absurd rfl (before c2s s2c)
  | ending rest => exact absurd rfl (attempt.going rest)

end Attempt

/-! ## The others -/

namespace Orderly

variable {s : Connections}

/-- A thread stays where it is until it steps. -/
theorem threads_of_ne (orderly : s.Orderly) {t : ThreadId} {connection : Connection}
    (found : s.threads t = some connection) {action : ConnectAction}
    (other : ∀ succeeds, action ≠ .thread t succeeds) :
    (connectStep s action).threads t = some connection := by
  cases action with
  | client pid succeeds =>
      obtain ⟨_, _, _, _, -, -, same⟩ := clientStep_moved s pid succeeds
      rw [connectStep, same]
      exact found
  | deliver pid onMain =>
      rw [connectStep]
      split <;> exact found
  | main succeeds =>
      rcases connectStep_main s succeeds with ⟨-, same⟩ | ⟨pid, -, same⟩
      · rw [same]
        exact found
      · rw [same]
        have apart : t ≠ s.started := Nat.ne_of_lt (orderly.admitted.bounded t _ found)
        exact (Function.update_of_ne apart ..).trans found
  | thread u succeeds =>
      have apart : t ≠ u := fun same => other succeeds (by rw [same])
      cases there : s.threads u with
      | none => simpa [connectStep, threadCall, there] using found
      | some connection' =>
          obtain ⟨_, _, _, -, -, -, same⟩ := orderly.threadCall_spec there succeeds
          rw [connectStep, same]
          exact (Function.update_of_ne apart ..).trans found

/-- A client stays where it is until it steps, and its signal stays raised. -/
theorem clients_of_ne (orderly : s.Orderly) {client : ClientPid} {action : ConnectAction}
    (other : ∀ succeeds, action ≠ .client client succeeds) :
    (connectStep s action).clients client = s.clients client ∧
      (s.ready client = true → (connectStep s action).ready client = true) := by
  cases action with
  | client pid succeeds =>
      have apart : client.val ≠ pid.val := fun same => other succeeds (by rw [Subtype.ext same])
      obtain ⟨_, _, _, _, -, -, same⟩ := clientStep_moved s pid succeeds
      rw [connectStep, same]
      refine ⟨Function.update_of_ne apart .., fun raised => ?_⟩
      exact (Function.update_of_ne apart ..).trans raised
  | deliver pid onMain =>
      rw [connectStep]
      split <;> exact ⟨rfl, id⟩
  | main succeeds =>
      rcases connectStep_main s succeeds with ⟨-, same⟩ | ⟨pid, -, same⟩ <;>
        exact same ▸ ⟨rfl, id⟩
  | thread t succeeds =>
      cases found : s.threads t with
      | none => simp [connectStep, threadCall, found]
      | some connection =>
          obtain ⟨_, ready, _, -, -, raise, same⟩ := orderly.threadCall_spec found succeeds
          rw [connectStep, same]
          refine ⟨rfl, fun raised => ?_⟩
          by_cases here : client.val = connection.clientPid
          · rw [here] at raised ⊢
            exact (Function.update_self ..).trans (raise raised)
          · exact (Function.update_of_ne here ..).trans raised

/-- Ends that have been opened have been opened. -/
theorem arrivals_le (orderly : s.Orderly) (action : ConnectAction) (place : Fifo × Side) :
    s.files.arrivals place ≤ (connectStep s action).files.arrivals place := by
  cases action with
  | client pid succeeds =>
      obtain ⟨_, _, _, _, move, -, same⟩ := clientStep_moved s pid succeeds
      rw [connectStep, same]
      exact move.call.arrivals_le place
  | deliver pid onMain =>
      rw [connectStep]
      split <;> exact Nat.le_refl _
  | main succeeds =>
      rcases connectStep_main s succeeds with ⟨-, same⟩ | ⟨pid, -, same⟩ <;>
        exact same ▸ Nat.le_refl _
  | thread t succeeds =>
      cases found : s.threads t with
      | none => simp [connectStep, threadCall, found]
      | some connection =>
          obtain ⟨_, _, _, call, -, -, same⟩ := orderly.threadCall_spec found succeeds
          rw [connectStep, same]
          exact call.arrivals_le place

/-- A wait that is over stays over. -/
theorem met_step (orderly : s.Orderly) (action : ConnectAction) {fifo : Fifo} {side : Side}
    {ticket : Nat} (met : s.files.met fifo side ticket = true) :
    (connectStep s action).files.met fifo side ticket = true := by
  rw [Fifos.met, decide_eq_true_eq] at met ⊢
  exact Nat.lt_of_lt_of_le met (orderly.arrivals_le action _)

end Orderly

/-! ## The first to get through -/

/-- The two ends of a connection. -/
inductive Peer where
  | client
  | thread
  deriving DecidableEq, Repr

/-- The call of one of them that does not fail. -/
def Peer.call (t : ThreadId) (client : ClientPid) : Peer → ConnectAction
  | .client => .client client true
  | .thread => .thread t true

/-- One of the two does not wait. -/
def Able (s : Connections) (t : ThreadId) (pid : Pid) : Peer → Prop
  | .client => s.ClientReady pid
  | .thread => ∃ point, s.threads t = some ⟨pid, point⟩ ∧ PointReady s.files point

/-- How many calls the two have left. -/
def rank (s : Connections) (t : ThreadId) (pid : Pid) : Nat :=
  (s.clients pid).rank + ((s.threads t).elim 0 fun connection => connection.point.rank)

/-- One of the two has got through. -/
def Through (s : Connections) (t : ThreadId) (pid : Pid) : Prop :=
  (∃ c2s s2c, s.clients pid = .connected c2s s2c) ∨
    ∃ c2s s2c, s.threads t = some ⟨pid, .serving c2s s2c⟩

namespace Attempt

variable {s : Connections} {t : ThreadId} {client : ClientPid} {point : ThreadPoint}

theorem not_connected (onward : ¬s.Through t client) (c2s s2c : Fifo) :
    s.clients client ≠ .connected c2s s2c :=
  fun connected => onward (.inl ⟨c2s, s2c, connected⟩)

theorem not_serving (attempt : s.Attempt t client point) (onward : ¬s.Through t client)
    (c2s s2c : Fifo) : point ≠ .serving c2s s2c := by
  rintro rfl
  exact onward (.inr ⟨c2s, s2c, attempt.found⟩)

theorem rank_eq (attempt : s.Attempt t client point) :
    s.rank t client = (s.clients client).rank + point.rank := by
  rw [rank, attempt.found]
  rfl

/-- What the client can do it can still do after a step of another. -/
theorem clientReady_step (attempt : s.Attempt t client point) {action : ConnectAction}
    (other : ∀ succeeds, action ≠ .client client succeeds) (able : s.ClientReady client) :
    (connectStep s action).ClientReady client := by
  obtain ⟨same, raised⟩ := attempt.orderly.clients_of_ne other
  revert able
  rw [ClientReady, ClientReady, same]
  cases s.clients client with
  | waiting => exact raised
  | meetingC2s _ _ | meetingS2c _ _ _ => exact attempt.orderly.met_step action
  | blocking | asking | openingC2s | openingS2c _ | connected _ _ | gone | killed => exact id

theorem pointReady_step (attempt : s.Attempt t client point) (action : ConnectAction)
    (able : PointReady s.files point) : PointReady (connectStep s action).files point := by
  revert able
  cases point with
  | meetingC2s _ _ | meetingS2c _ _ _ => exact attempt.orderly.met_step action
  | unlinkingC2s | unlinkingS2c | makingC2s | makingS2c | signalling | openingC2s
  | openingS2c _ | serving _ _ | ending _ => exact id

/-- A step that takes nothing from the two: whoever can go on still can, or has. -/
def Onward (s : Connections) (t : ThreadId) (client : ClientPid) (action : ConnectAction) :
    Prop :=
  (∃ point, (connectStep s action).Attempt t client point) ∧
    ∀ peer, s.Able t client peer →
      (connectStep s action).rank t client < s.rank t client ∨
        action ≠ peer.call t client ∧ (connectStep s action).rank t client ≤ s.rank t client ∧
          (connectStep s action).Able t client peer

theorem onward_client (attempt : s.Attempt t client point) (onward : ¬s.Through t client) :
    Onward s t client (.client client true) := by
  have orderly := attempt.orderly.step (.client client true)
  have other (succeeds : Bool) : ConnectAction.client client true ≠ .thread t succeeds := by simp
  have found := attempt.orderly.threads_of_ne attempt.found other
  rcases attempt.client_call (not_connected onward) with ⟨present, lower⟩ | ⟨waits, same⟩
  · have next : (connectStep s (.client client true)).Attempt t client point :=
      ⟨orderly, found, attempt.going, present⟩
    refine ⟨⟨point, next⟩, fun peer _ => .inl ?_⟩
    rw [next.rank_eq, attempt.rank_eq]
    exact Nat.add_lt_add_right lower _
  · rw [Onward, connectStep, same]
    refine ⟨⟨point, attempt⟩, fun peer able => ?_⟩
    cases peer with
    | client => exact absurd able waits
    | thread => exact .inr ⟨by simp [Peer.call], Nat.le_refl _, able⟩

theorem onward_thread (attempt : s.Attempt t client point) (onward : ¬s.Through t client) :
    Onward s t client (.thread t true) := by
  have orderly := attempt.orderly.step (.thread t true)
  have other (succeeds : Bool) : ConnectAction.thread t true ≠ .client client succeeds := by simp
  have clients := (attempt.orderly.clients_of_ne other).1
  rcases attempt.thread_call (attempt.not_serving onward) with
    ⟨point', found, going, lower⟩ | ⟨waits, same⟩
  · have next : (connectStep s (.thread t true)).Attempt t client point' :=
      ⟨orderly, found, going, by rw [clients]; exact attempt.present⟩
    refine ⟨⟨point', next⟩, fun peer _ => .inl ?_⟩
    rw [next.rank_eq, attempt.rank_eq, clients]
    exact Nat.add_lt_add_left lower _
  · rw [Onward, connectStep, same]
    refine ⟨⟨point, attempt⟩, fun peer able => ?_⟩
    cases peer with
    | client => exact .inr ⟨by simp [Peer.call], Nat.le_refl _, able⟩
    | thread =>
        obtain ⟨point', found, ready⟩ := able
        rw [attempt.found] at found
        cases found
        exact absurd ready waits

theorem onward_other (attempt : s.Attempt t client point) {action : ConnectAction}
    (notClient : ∀ succeeds, action ≠ .client client succeeds)
    (notThread : ∀ succeeds, action ≠ .thread t succeeds) : Onward s t client action := by
  have clients := (attempt.orderly.clients_of_ne notClient).1
  have next : (connectStep s action).Attempt t client point :=
    ⟨attempt.orderly.step action, attempt.orderly.threads_of_ne attempt.found notThread,
      attempt.going, by rw [clients]; exact attempt.present⟩
  refine ⟨⟨point, next⟩, fun peer able => .inr ⟨?_, ?_, ?_⟩⟩
  · cases peer with
    | client => exact notClient true
    | thread => exact notThread true
  · rw [next.rank_eq, attempt.rank_eq, clients]
  · cases peer with
    | client => exact attempt.clientReady_step notClient able
    | thread =>
        obtain ⟨point', found, ready⟩ := able
        rw [attempt.found] at found
        cases found
        exact ⟨point, next.found, attempt.pointReady_step action ready⟩

/-- Until one of the two gets through, neither is set back, as long as their own calls do
not fail. -/
theorem onward (attempt : s.Attempt t client point) (onward : ¬s.Through t client)
    {action : ConnectAction}
    (patient : action ≠ .client client false ∧ action ≠ .thread t false) :
    Onward s t client action := by
  by_cases client_acts : action = .client client true
  · exact client_acts ▸ attempt.onward_client onward
  · by_cases thread_acts : action = .thread t true
    · exact thread_acts ▸ attempt.onward_thread onward
    · apply attempt.onward_other
      · rintro (_ | _)
        · exact patient.1
        · exact client_acts
      · rintro (_ | _)
        · exact patient.2
        · exact thread_acts

/-- One of the two can go on, as long as none has got through. -/
theorem someone_able (attempt : s.Attempt t client point) (onward : ¬s.Through t client) :
    ∃ peer, s.Able t client peer := by
  rcases attempt.someone (not_connected onward) (attempt.not_serving onward) with ready | ready
  · exact ⟨.client, ready⟩
  · exact ⟨.thread, point, attempt.found, ready⟩

end Attempt

/-! ## The other one -/

/-- A thread that has met its client at the second FIFO gets through, whatever the client
does. -/
theorem Orderly.thread_through {s : Connections} (orderly : s.Orderly) {t : ThreadId} {pid : Pid}
    {c2s s2c : Fifo} (found : s.threads t = some ⟨pid, .meetingS2c c2s s2c 0⟩)
    (met : s.files.met s2c .write 0 = true) {action : ConnectAction}
    (patient : action ≠ .thread t false) :
    (connectStep s action).threads t = some ⟨pid, .serving c2s s2c⟩ ∨
      action ≠ .thread t true ∧
        (connectStep s action).threads t = some ⟨pid, .meetingS2c c2s s2c 0⟩ ∧
        (connectStep s action).files.met s2c .write 0 = true := by
  by_cases acts : action = .thread t true
  · subst acts
    exact .inl (by simp [connectStep, threadCall, found, met, setThread])
  · refine .inr ⟨acts, orderly.threads_of_ne found ?_, orderly.met_step action met⟩
    rintro (_ | _)
    · exact patient
    · exact acts

theorem Orderly.client_through {s : Connections} (orderly : s.Orderly) {client : ClientPid}
    {c2s s2c : Fifo} (here : s.clients client = .meetingS2c c2s s2c 0)
    (met : s.files.met s2c .read 0 = true) {action : ConnectAction}
    (patient : action ≠ .client client false) :
    (connectStep s action).clients client = .connected c2s s2c ∨
      action ≠ .client client true ∧
        (connectStep s action).clients client = .meetingS2c c2s s2c 0 ∧
        (connectStep s action).files.met s2c .read 0 = true := by
  by_cases acts : action = .client client true
  · subst acts
    exact .inl (by simp [connectStep, clientStep, here, met, setClient])
  · refine .inr ⟨acts, (orderly.clients_of_ne ?_).1.trans here, orderly.met_step action met⟩
    rintro (_ | _)
    · exact patient
    · exact acts

/-- When one of them has got through, the other one has, or is about to. -/
theorem Attempt.through_cases {s : Connections} {t : ThreadId} {client : ClientPid}
    {point : ThreadPoint} (attempt : s.Attempt t client point) (through : s.Through t client) :
    ∃ c2s s2c,
      (s.clients client = .connected c2s s2c ∨
        s.clients client = .meetingS2c c2s s2c 0 ∧ s.files.met s2c .read 0 = true) ∧
      (point = .serving c2s s2c ∨
        point = .meetingS2c c2s s2c 0 ∧ s.files.met s2c .write 0 = true) := by
  have paired := attempt.paired
  rcases through with ⟨c2s, s2c, connected⟩ | ⟨c2s, s2c, serving⟩
  · refine ⟨c2s, s2c, .inl connected, ?_⟩
    have busy : s.clients client ≠ .waiting ∧ s.clients client ≠ .gone := by simp [connected]
    have late := paired.client_quiet busy
    rw [connected] at paired
    cases point with
    | unlinkingC2s | unlinkingS2c | makingC2s | makingS2c | signalling => exact absurd trivial late
    | ending rest => exact absurd rfl (attempt.going rest)
    | openingC2s | meetingC2s _ _ | openingS2c _ =>
        obtain ⟨_, -, rendezvous⟩ := paired.present .s2c rfl
        exact (rendezvous.other_ne_ahead .read rfl rfl).elim
    | meetingS2c c2s' s2c' ticket =>
        obtain rfl := (paired.present .c2s rfl).same .write rfl rfl
        obtain rfl := (paired.present .s2c rfl).same .read rfl rfl
        obtain ⟨_, -, rendezvous⟩ := paired.present .s2c rfl
        obtain rfl := rendezvous.ticket .write s2c ticket rfl nofun
        exact .inr ⟨rfl, rendezvous.met_of_present rfl rfl⟩
    | serving c2s' s2c' =>
        obtain rfl := (paired.present .c2s rfl).same .write rfl rfl
        obtain rfl := (paired.present .s2c rfl).same .read rfl rfl
        exact .inl rfl
  · have asked := attempt.asked
    obtain rfl : point = .serving c2s s2c := by
      have same := attempt.found.symm.trans serving
      cases same
      rfl
    refine ⟨c2s, s2c, ?_, .inl rfl⟩
    cases here : s.clients client with
    | blocking | asking => rw [here] at asked; exact asked.elim
    | gone => exact absurd here attempt.present
    | killed => exact absurd here paired.alive
    | waiting | openingC2s | meetingC2s _ _ | openingS2c _ =>
        rw [here] at paired
        obtain ⟨_, -, rendezvous⟩ := paired.present .s2c rfl
        exact (rendezvous.other_ne_ahead .write rfl rfl).elim
    | meetingS2c c2s' s2c' ticket =>
        rw [here] at paired
        obtain rfl := (paired.present .c2s rfl).same .write rfl rfl
        obtain rfl := (paired.present .s2c rfl).same .read rfl rfl
        obtain ⟨_, -, rendezvous⟩ := paired.present .s2c rfl
        obtain rfl := rendezvous.ticket .read _ ticket rfl nofun
        exact .inr ⟨rfl, rendezvous.met_of_present rfl rfl⟩
    | connected c2s' s2c' =>
        rw [here] at paired
        obtain rfl := (paired.present .c2s rfl).same .write rfl rfl
        obtain rfl := (paired.present .s2c rfl).same .read rfl rfl
        exact .inl rfl

end Connections

/-! ## Both -/

/-- Once a thread has been started for a client that is still there, both get to the end of
the handshake, with the same FIFOs, if both keep stepping and no call of theirs fails.
Nothing is asked of the rest of the system. -/
theorem handshake_completes (left : List Text) (actions : List ConnectAction)
    (schedule : Nat → ConnectAction) (t : ThreadId) (client : ClientPid) (point : ThreadPoint)
    (found : (connectionsReached left actions).threads t = some ⟨client, point⟩)
    (going : ∀ rest, point ≠ .ending rest)
    (present : (connectionsReached left actions).clients client ≠ .gone)
    (patient : ∀ n, schedule n ≠ .client client false ∧ schedule n ≠ .thread t false)
    (fair : ∀ n, (∃ m, n ≤ m ∧ schedule m = .client client true) ∧
      ∃ m, n ≤ m ∧ schedule m = .thread t true) :
    let after := trajectory connectStep (connectionsReached left actions) schedule
    ∃ c2s s2c, (∃ n, (after n).clients client = .connected c2s s2c) ∧
      ∃ n, (after n).threads t = some ⟨client, .serving c2s s2c⟩ := by
  intro after
  have orderly (n : Nat) : (after n).Orderly :=
    trajectory_invariant connectStep (fun _ action kept => kept.step action)
      (orderly_reached left actions) schedule n
  have fair (peer : Connections.Peer) (n : Nat) : ∃ m, n ≤ m ∧ schedule m = peer.call t client := by
    cases peer with
    | client => exact (fair n).1
    | thread => exact (fair n).2
  -- The rank leads to the first of the two.
  obtain ⟨n, -, ⟨point', attempt⟩, through⟩ := reaches_of_rank after fair
    (fun s => ∃ point, s.Attempt t client point) (fun s => s.Through t client)
    (fun peer s => s.Able t client peer) (fun s => s.rank t client)
    (fun n ⟨_, attempt⟩ onward => (attempt.onward onward (patient n)).1)
    (fun _ ⟨_, attempt⟩ onward => attempt.someone_able onward)
    (fun n peer ⟨_, attempt⟩ onward able => (attempt.onward onward (patient n)).2 peer able)
    (n := 0) ⟨point, orderly_reached left actions, found, going, present⟩
  obtain ⟨c2s, s2c, client_there, thread_there⟩ := attempt.through_cases through
  refine ⟨c2s, s2c, ?_, ?_⟩
  · rcases client_there with connected | waiting
    · exact ⟨n, connected⟩
    · obtain ⟨m, -, done⟩ := reaches_of_waiting after (fair .client)
        (fun s => s.clients client = .meetingS2c c2s s2c 0 ∧ s.files.met s2c .read 0 = true)
        (fun s => s.clients client = .connected c2s s2c)
        (fun k still => (orderly k).client_through still.1 still.2 (patient k).1)
        waiting
      exact ⟨m, done⟩
  · rcases thread_there with rfl | ⟨rfl, met⟩
    · exact ⟨n, attempt.found⟩
    · obtain ⟨m, -, done⟩ := reaches_of_waiting after (fair .thread)
        (fun s => s.threads t = some ⟨client, .meetingS2c c2s s2c 0⟩ ∧
          s.files.met s2c .write 0 = true)
        (fun s => s.threads t = some ⟨client, .serving c2s s2c⟩)
        (fun k still => (orderly k).thread_through still.1 still.2 (patient k).2)
        ⟨attempt.found, met⟩
      exact ⟨m, done⟩

/-- The two step in turn. -/
theorem handshake_completes_inTurn :
    let schedule (n : Nat) : ConnectAction :=
      if n % 2 = 0 then .client clientOne true else .thread 0 true
    let after := trajectory connectStep
      (connectionsReached [] (.main true :: admitting clientOne)) schedule
    ∃ c2s s2c, (∃ n, (after n).clients clientOne = .connected c2s s2c) ∧
      ∃ n, (after n).threads 0 = some ⟨clientOne, .serving c2s s2c⟩ := by
  intro schedule
  apply handshake_completes [] (.main true :: admitting clientOne) schedule 0 clientOne
    .unlinkingC2s
  · decide +kernel
  · simp
  · decide +kernel
  · intro n
    by_cases even : n % 2 = 0 <;> simp [schedule, even]
  · intro n
    constructor
    · exact ⟨2 * n, by omega, by simp [schedule]⟩
    · exact ⟨2 * n + 1, by omega, by simp [schedule, Nat.add_mod]⟩

end CollabMarkdown.Process
