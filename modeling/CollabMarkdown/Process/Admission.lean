import CollabMarkdown.Process.Calls
import Mathlib.Data.List.Perm.Subperm

/-!
# One thread for each client

The request of a client is on its way, recorded by the handler, in the hands of the main
thread, or has become a thread.  Each step takes requests from one of these places to the
next or loses them, and no client asks twice.
-/

namespace CollabMarkdown.Process

open CollabMarkdown.CString
open CollabMarkdown.Posix

/-! ## The requests in the acceptor -/

namespace Acceptor

/-- The request in the variable of the handler, unless it is the one that the main thread
has copied and is about to clear. -/
def recorded (s : Acceptor) : List Pid :=
  if 0 < s.pendingClientPid ∧ ¬((s.statement = .clearReceived ∨ s.statement = .clearPid) ∧
      s.clientPid = s.pendingClientPid) then
    [s.pendingClientPid]
  else
    []

/-- The requests that the server knows of and has not started a thread for. -/
def requests (s : Acceptor) : List Pid :=
  s.recorded ++ s.inHand

/-- The handler overwrites the request that is recorded. -/
theorem requests_connectSignalHandler (s : Acceptor) (pid : SenderPid) {statement : MainStatement}
    (woken : statement = s.statement ∨ s.statement = .pause ∧ statement = .testReceived) :
    List.Subperm { s.connectSignalHandler pid with statement }.requests
      (pid.val :: s.requests) := by
  have inHand : { s.connectSignalHandler pid with statement }.inHand = s.inHand := by
    rcases woken with rfl | ⟨asleep, rfl⟩
    · rfl
    · simp [Acceptor.inHand, connectSignalHandler, asleep]
  have recorded : { s.connectSignalHandler pid with statement }.recorded.Sublist [pid.val] := by
    unfold Acceptor.recorded
    split
    · exact List.Sublist.refl _
    · exact List.nil_sublist _
  apply List.Sublist.subperm
  rw [requests, inHand, requests]
  exact recorded.append (List.sublist_append_right _ _)

/-- A statement of the main thread hands requests on. -/
theorem requests_mainStep {s : Acceptor} (tested : s.Tested) (succeeds : Bool) :
    List.Subperm ((s.mainStep succeeds).2.pids ++ (s.mainStep succeeds).1.requests)
      s.requests := by
  obtain ⟨statement, connectReceived, pendingClientPid, clientPid⟩ := s
  have same {before after : List Pid} (equal : after = before) : List.Subperm after before :=
    (List.Perm.of_eq equal).subperm
  cases statement with
  | setup | pause | detach | readPid | clearReceived =>
      exact same (by simp [mainStep, requests, recorded, inHand, AcceptEvent.pids])
  | testReceived =>
      cases connectReceived <;>
        exact same (by simp [mainStep, requests, recorded, inHand, AcceptEvent.pids])
  | clearPid =>
      apply List.Sublist.subperm
      simp [mainStep, requests, recorded, inHand, AcceptEvent.pids]
  | testPid =>
      rcases lt_or_ge 0 clientPid with positive | negative
      · exact same (by
          simp [mainStep, requests, recorded, inHand, AcceptEvent.pids, positive,
            not_le.mpr positive])
      · exact same (by
          simp [mainStep, requests, recorded, inHand, AcceptEvent.pids, negative,
            not_lt.mpr negative])
  | mallocArgs =>
      cases succeeds with
      | true => exact same (by simp [mainStep, requests, recorded, inHand, AcceptEvent.pids])
      | false =>
          apply List.Sublist.subperm
          simp [mainStep, requests, recorded, inHand, AcceptEvent.pids]
  | createThread =>
      have positive : 0 < clientPid := tested (.inr rfl)
      cases succeeds with
      | true =>
          apply List.Perm.subperm
          simpa [mainStep, requests, recorded, inHand, AcceptEvent.pids, positive] using
            (List.perm_append_singleton clientPid _).symm
      | false =>
          apply List.Sublist.subperm
          simp [mainStep, requests, recorded, inHand, AcceptEvent.pids]

end Acceptor

/-! ## All requests -/

/-- A client that has asked the server, or has left without. -/
def ClientPoint.Asked : ClientPoint → Prop
  | .blocking | .asking => False
  | .waiting | .openingC2s | .meetingC2s _ _ | .openingS2c _ | .meetingS2c _ _ _
  | .connected _ _ | .gone | .killed => True

theorem ClientMove.asked {pid : Pid} {fs fs' : Fifos Text Party} {point point' : ClientPoint}
    {ready ready' : Bool} (move : ClientMove pid fs point ready fs' point' ready')
    (before : point.Asked) : point'.Asked := by
  cases move with
  | stay => exact before
  | block => exact before
  | ask | wake | openC2s | meetC2s | openS2c | meetS2c | leave => trivial

namespace Connections

/-- The clients that the threads were started for. -/
def served (s : Connections) : List Pid :=
  (List.range s.started).filterMap fun t => (s.threads t).map Connection.clientPid

/-- The requests that are on their way, in the acceptor, or have become threads. -/
def requests (s : Connections) : List Pid :=
  s.queued.map Subtype.val ++ s.acceptor.requests ++ s.served

/-- No request is there twice, and none is there of a client that has not asked. -/
structure Admitted (s : Connections) : Prop where
  nodup : s.requests.Nodup
  asked : ∀ pid ∈ s.requests, (0 < pid ∧ pid < 2 ^ 31) ∧ (s.clients pid).Asked
  tested : s.acceptor.Tested
  bounded : ∀ t connection, s.threads t = some connection → t < s.started

theorem admitted_start (left : List Text) : (start left).Admitted where
  nodup := by simp [requests, served, start, Acceptor.requests, Acceptor.recorded,
    Acceptor.inHand, Acceptor.start]
  asked pid member := by
    simp [requests, served, start, Acceptor.requests, Acceptor.recorded, Acceptor.inHand,
      Acceptor.start] at member
  tested := by simp [start, Acceptor.start, Acceptor.Tested]
  bounded t connection found := by simp [start] at found

namespace Admitted

variable {s s' : Connections}

/-- A step that makes no request up. -/
theorem of_subperm (admitted : s.Admitted) (fewer : List.Subperm s'.requests s.requests)
    (asked : ∀ pid, (s.clients pid).Asked → (s'.clients pid).Asked)
    (tested : s'.acceptor.Tested)
    (bounded : ∀ t connection, s'.threads t = some connection → t < s'.started) :
    s'.Admitted where
  nodup := by
    obtain ⟨_, permuted, sublist⟩ := fewer
    exact permuted.nodup_iff.mp (admitted.nodup.sublist sublist)
  asked pid member := by
    obtain ⟨valid, before⟩ := admitted.asked pid (fewer.subset member)
    exact ⟨valid, asked pid before⟩
  tested := tested
  bounded := bounded

/-! ## Each step -/

theorem client (admitted : s.Admitted) (pid : ClientPid) (moved : ClientMoved s pid s') :
    s'.Admitted := by
  obtain ⟨files, point, ready, asked, move, asking, rfl⟩ := moved
  have onward (other : Pid) (before : (s.clients other).Asked) :
      (Function.update s.clients pid point other).Asked := by
    by_cases here : other = pid
    · subst here
      rw [Function.update_self]
      exact move.asked before
    · rwa [Function.update_of_ne here]
  rcases asking with rfl | ⟨rfl, standing, rfl⟩
  · refine admitted.of_subperm (List.Perm.of_eq ?_).subperm onward admitted.tested
      admitted.bounded
    rw [List.append_nil]
    rfl
  · have permuted : (requests { s with
        queued := s.queued ++ [pid]
        files
        clients := Function.update s.clients pid .waiting
        ready := Function.update s.ready pid ready }).Perm (pid.val :: s.requests) := by
      simp only [requests, served, List.map_append, List.map_cons, List.map_nil,
        List.append_assoc, List.singleton_append]
      exact List.perm_middle
    constructor
    · rw [permuted.nodup_iff, List.nodup_cons]
      refine ⟨fun member => ?_, admitted.nodup⟩
      have before := (admitted.asked _ member).2
      rw [standing] at before
      exact before
    · intro other member
      rcases List.mem_cons.mp (permuted.subset member) with rfl | older
      · exact ⟨pid.property, by simp [ClientPoint.Asked]⟩
      · obtain ⟨valid, before⟩ := admitted.asked other older
        exact ⟨valid, onward other before⟩
    · exact admitted.tested
    · exact admitted.bounded

theorem deliver (admitted : s.Admitted) (pid : ClientPid) (onMain : Bool) :
    (connectStep s (.deliver pid onMain)).Admitted := by
  simp only [connectStep]
  split
  · rename_i member
    let sender : SenderPid := ⟨pid, pid.property.1⟩
    let statement :=
      if onMain then (s.acceptor.connectSignalHandler sender).statement else s.acceptor.statement
    have woken : statement = s.acceptor.statement ∨
        s.acceptor.statement = .pause ∧ statement = .testReceived := by
      cases onMain with
      | false => exact .inl rfl
      | true =>
          by_cases asleep : s.acceptor.statement = .pause <;>
            simp [statement, Acceptor.connectSignalHandler, asleep]
    have taken : ((s.queued.erase pid).map Subtype.val ++
          pid.val :: s.acceptor.requests).Perm
        (s.queued.map Subtype.val ++ s.acceptor.requests) :=
      List.perm_middle.trans
        (((List.perm_cons_erase member).map Subtype.val).symm.append_right _)
    refine admitted.of_subperm ?_ (fun _ => id) ?_ admitted.bounded
    · have handed := s.acceptor.requests_connectSignalHandler sender woken
      exact ((((List.Subperm.refl _).append handed).trans taken.subperm).append
        (List.Subperm.refl _))
    · exact admitted.tested.connectSignalHandler sender woken
  · exact admitted

theorem served_start (s : Connections) (acceptor : Acceptor) (pid : Pid) :
    served { s with
      acceptor
      threads := Function.update s.threads s.started (some ⟨pid, .unlinkingC2s⟩)
      started := s.started + 1 } = s.served ++ [pid] := by
  have earlier (t : ThreadId) (member : t ∈ List.range s.started) :
      (Function.update s.threads s.started (some ⟨pid, .unlinkingC2s⟩) t).map
        Connection.clientPid = (s.threads t).map Connection.clientPid := by
    rw [Function.update_of_ne (Nat.ne_of_lt (List.mem_range.mp member))]
  simp [served, List.range_succ, List.filterMap_congr earlier]

theorem main (admitted : s.Admitted) (succeeds : Bool) :
    (connectStep s (.main succeeds)).Admitted := by
  have handed := s.acceptor.requests_mainStep admitted.tested succeeds
  have tested := admitted.tested.mainStep succeeds
  rcases connectStep_main s succeeds with ⟨none, same⟩ | ⟨pid, started, same⟩
  · rw [same]
    rw [none, List.nil_append] at handed
    refine admitted.of_subperm ?_ (fun _ => id) tested admitted.bounded
    exact (((List.Subperm.refl _).append handed).append (List.Subperm.refl _))
  · rw [same]
    rw [started] at handed
    refine admitted.of_subperm ?_ (fun _ => id) tested ?_
    · have moved : List.Perm
          (s.queued.map Subtype.val ++ (s.acceptor.mainStep succeeds).1.requests ++
            (s.served ++ [pid]))
          (s.queued.map Subtype.val ++ ([pid] ++ (s.acceptor.mainStep succeeds).1.requests) ++
            s.served) := by
        rw [List.append_assoc, List.append_assoc, List.append_assoc, ← List.append_assoc _ s.served]
        exact List.perm_append_comm.append_left _
      rw [requests, served_start]
      exact moved.subperm.trans
        (((List.Subperm.refl _).append handed).append (List.Subperm.refl _))
    · intro t connection there
      by_cases here : t = s.started
      · exact here ▸ Nat.lt_succ_self _
      · simp only [Function.update_of_ne here] at there
        exact Nat.lt_succ_of_lt (admitted.bounded t connection there)

/-- The pids of the threads do not change with where they stand. -/
theorem thread (admitted : s.Admitted) {t : ThreadId} {pid : Pid} {point : ThreadPoint}
    (found : s.threads t = some ⟨pid, point⟩) (point' : ThreadPoint) {files : Fifos Text Party}
    {clients : Pid → ClientPoint} {ready : Pid → Bool}
    (asked : ∀ other, (s.clients other).Asked → (clients other).Asked) :
    Admitted { s with
      files
      clients
      ready
      threads := Function.update s.threads t (some ⟨pid, point'⟩) } := by
  have same (u : ThreadId) : (Function.update s.threads t (some ⟨pid, point'⟩) u).map
      Connection.clientPid = (s.threads u).map Connection.clientPid := by
    by_cases here : u = t
    · subst here
      simp [found]
    · rw [Function.update_of_ne here]
  refine admitted.of_subperm (List.Perm.of_eq ?_).subperm asked admitted.tested ?_
  · simp only [requests, served, same]
  · intro u connection there
    by_cases here : u = t
    · subst here
      exact admitted.bounded u _ found
    · simp only [Function.update_of_ne here] at there
      exact admitted.bounded u connection there

/-- A thread serves a client that has asked. -/
theorem thread_asked (admitted : s.Admitted) {t : ThreadId} {pid : Pid} {point : ThreadPoint}
    (found : s.threads t = some ⟨pid, point⟩) :
    (0 < pid ∧ pid < 2 ^ 31) ∧ (s.clients pid).Asked := by
  apply admitted.asked
  refine List.mem_append_right _ (List.mem_filterMap.mpr ⟨t, ?_, by simp [found]⟩)
  exact List.mem_range.mpr (admitted.bounded t _ found)

/-! ## What follows -/

/-- No client has two threads. -/
theorem thread_unique (admitted : s.Admitted) {t u : ThreadId} {pid : Pid}
    {point point' : ThreadPoint} (one : s.threads t = some ⟨pid, point⟩)
    (other : s.threads u = some ⟨pid, point'⟩) : t = u := by
  have nodup := admitted.nodup
  rw [requests, List.nodup_append] at nodup
  have apart := List.pairwise_iff_getElem.mp (List.pairwise_filterMap.mp nodup.2.1)
  have ordered (v w : ThreadId) (earlier : v < w) (one : (s.threads v).map Connection.clientPid =
      some pid) (other : (s.threads w).map Connection.clientPid = some pid)
      (bound : w < s.started) : False := by
    have v_lt : v < (List.range s.started).length := by
      rw [List.length_range]
      exact earlier.trans bound
    have w_lt : w < (List.range s.started).length := by rwa [List.length_range]
    exact apart v w v_lt w_lt earlier pid (by simpa using one) pid (by simpa using other) rfl
  rcases Nat.lt_trichotomy t u with earlier | same | later
  · exact (ordered t u earlier (by simp [one]) (by simp [other])
      (admitted.bounded u _ other)).elim
  · exact same
  · exact (ordered u t later (by simp [other]) (by simp [one])
      (admitted.bounded t _ one)).elim

/-- A thread is started for a client that has asked and has no thread yet. -/
theorem starting (admitted : s.Admitted) {succeeds : Bool} {pid : Pid}
    (started : (s.acceptor.mainStep succeeds).2.pids = [pid]) :
    ((0 < pid ∧ pid < 2 ^ 31) ∧ (s.clients pid).Asked) ∧
      ∀ t point, s.threads t ≠ some ⟨pid, point⟩ := by
  have handed := s.acceptor.requests_mainStep admitted.tested succeeds
  rw [started] at handed
  have here : pid ∈ s.acceptor.requests := handed.subset (by simp)
  refine ⟨admitted.asked pid (by simp [requests, here]), fun t point found => ?_⟩
  have nodup := admitted.nodup
  rw [requests, List.nodup_append] at nodup
  have there : pid ∈ s.served :=
    List.mem_filterMap.mpr ⟨t, List.mem_range.mpr (admitted.bounded t _ found), by simp [found]⟩
  exact nodup.2.2 pid (List.mem_append_right _ here) pid there rfl

end Admitted

end Connections

end CollabMarkdown.Process
