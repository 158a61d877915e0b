import CollabMarkdown.Process.Pairing

/-!
# The FIFOs of a run

Whatever the order of the steps, and whichever calls fail, each client has the FIFOs that
it shares with its thread to itself, and a thread that has ended leaves neither of them
behind.
-/

namespace CollabMarkdown.Process

open CollabMarkdown.CString
open CollabMarkdown.Posix

/-! ## The invariant -/

/-- A client that has not seen a signal. -/
def ClientPoint.Idle : ClientPoint → Prop
  | .blocking | .asking | .waiting | .gone => True
  | .openingC2s | .meetingC2s _ _ | .openingS2c _ | .meetingS2c _ _ _ | .connected _ _
  | .killed => False

theorem ClientMove.idle {pid : Pid} {fs fs' : Fifos Text Party} {point point' : ClientPoint}
    {ready' : Bool} (move : ClientMove pid fs point false fs' point' ready')
    (idle : point.Idle) : ready' = false ∧ point'.Idle := by
  cases move with
  | stay => exact ⟨rfl, idle⟩
  | block | ask | leave => exact ⟨rfl, trivial⟩
  | openC2s | meetC2s | openS2c | meetS2c => exact absurd idle id

theorem ClientPoint.Idle.early {point : ClientPoint} (idle : point.Idle) (asked : point.Asked) :
    point = .waiting ∨ point = .gone := by
  cases point <;> simp_all [ClientPoint.Idle, ClientPoint.Asked]

/-- Client processes go by different paths. -/
theorem path_ne_clientPath {pid other : Pid} (valid : 0 < pid ∧ pid < 2 ^ 31)
    (valid' : 0 < other ∧ other < 2 ^ 31) (apart : pid ≠ other) (d : Direction) (side : Side) :
    d.path pid ≠ clientPath other side := by
  intro same
  cases side with
  | write => exact apart (Direction.path_inj (e := .c2s) valid valid' same).2
  | read => exact apart (Direction.path_inj (e := .s2c) valid valid' same).2

theorem path_ne_threadPath {pid other : Pid} (valid : 0 < pid ∧ pid < 2 ^ 31)
    (valid' : 0 < other ∧ other < 2 ^ 31) (apart : pid ≠ other) (d : Direction) (side : Side) :
    d.path pid ≠ threadPath other side := by
  cases side with
  | write => exact path_ne_clientPath valid valid' apart d .read
  | read => exact path_ne_clientPath valid valid' apart d .write

theorem update_some {threads : ThreadId → Option Connection} {t u : ThreadId} {pid other : Pid}
    {point point' : ThreadPoint}
    (found : Function.update threads t (some ⟨pid, point⟩) u = some ⟨other, point'⟩) :
    u = t ∧ other = pid ∧ point' = point ∨ u ≠ t ∧ threads u = some ⟨other, point'⟩ := by
  by_cases here : u = t
  · subst here
    rw [Function.update_self] at found
    cases found
    exact .inl ⟨rfl, rfl, rfl⟩
  · rw [Function.update_of_ne here] at found
    exact .inr ⟨here, found⟩

namespace Connections

/-- The accounts of all parties, and what is known of each client and its thread. -/
structure Orderly (s : Connections) : Prop where
  admitted : s.Admitted
  wellFormed : s.files.WellFormed
  client : ∀ pid, s.files.Accounts (.client pid) (clientPath pid) (s.clients pid).holds
  thread : ∀ t pid point, s.threads t = some ⟨pid, point⟩ →
    s.files.Accounts (.thread t) (threadPath pid) point.holds
  unborn : ∀ t, s.threads t = none → ∀ paths, s.files.Accounts (.thread t) paths []
  unserved : ∀ pid, (∀ t point, s.threads t ≠ some ⟨pid, point⟩) →
    s.ready pid = false ∧ (s.clients pid).Idle
  paired : ∀ t pid point, s.threads t = some ⟨pid, point⟩ →
    Paired s.files t pid (s.clients pid) (s.ready pid) point

theorem orderly_start (left : List Text) : (start left).Orderly where
  admitted := admitted_start left
  wellFormed := Fifos.wellFormed_ofPaths left
  client pid :=
    ⟨by simp [start, Fifos.ofPaths, ClientPoint.holds], by simp [start, ClientPoint.holds]⟩
  thread t pid point found := by simp [start] at found
  unborn t _ paths := ⟨by simp [start, Fifos.ofPaths], by simp⟩
  unserved pid _ := ⟨rfl, trivial⟩
  paired t pid point found := by simp [start] at found

namespace Orderly

variable {s s' : Connections}

theorem client_step (orderly : s.Orderly) (pid : ClientPid) (moved : ClientMoved s pid s') :
    s'.Orderly := by
  have admitted := orderly.admitted.client pid moved
  obtain ⟨files, point, ready, asked, move, -, rfl⟩ := moved
  have call := move.call
  refine ⟨admitted, call.wellFormed orderly.wellFormed, ?_, ?_, ?_, ?_, ?_⟩
  · intro other
    by_cases here : other = pid
    · subst here
      simpa using call.accounts orderly.wellFormed (orderly.client _)
    · simp only [Function.update_of_ne here]
      exact call.accounts_of_ne (by simpa using here) (orderly.client other)
  · intro t other point' found
    exact call.accounts_of_ne (by simp) (orderly.thread t other point' found)
  · intro t found paths
    exact call.accounts_of_ne (by simp) (orderly.unborn t found paths)
  · intro other nobody
    have before := orderly.unserved other nobody
    by_cases here : other = pid
    · subst here
      rw [before.1] at move
      simpa using move.idle before.2
    · simpa only [Function.update_of_ne here] using before
  · intro t other point' found
    obtain ⟨valid, before⟩ := orderly.admitted.thread_asked found
    have paired := orderly.paired t other point' found
    by_cases here : other = pid
    · subst here
      simpa using paired.clientMove orderly.wellFormed valid before move
    · simp only [Function.update_of_ne here]
      exact paired.call orderly.wellFormed (orderly.client pid) call
        (path_ne_clientPath valid pid.property here)

/-- A call of a thread, which may raise the signal of its client. -/
theorem thread_step (orderly : s.Orderly) {t : ThreadId} {pid : Pid} {point point' : ThreadPoint}
    {files : Fifos Text Party} {ready : Bool} (found : s.threads t = some ⟨pid, point⟩)
    (call : Fifos.Call (.thread t) (threadPath pid) s.files point.holds files point'.holds)
    (paired : Paired files t pid (s.clients pid) ready point') :
    Orderly { s with
      files
      ready := Function.update s.ready pid ready
      threads := Function.update s.threads t (some ⟨pid, point'⟩) } := by
  have accounts := orderly.thread t pid point found
  refine ⟨orderly.admitted.thread found point' fun _ => id, call.wellFormed orderly.wellFormed,
    fun other => call.accounts_of_ne (by simp) (orderly.client other), ?_, ?_, ?_, ?_⟩
  · intro u other point'' there
    rcases update_some there with ⟨rfl, rfl, rfl⟩ | ⟨here, there⟩
    · exact call.accounts orderly.wellFormed accounts
    · exact call.accounts_of_ne (by simpa using here) (orderly.thread u other point'' there)
  · intro u there paths
    have here : u ≠ t := by
      rintro rfl
      simp at there
    simp only [Function.update_of_ne here] at there
    exact call.accounts_of_ne (by simpa using here) (orderly.unborn u there paths)
  · intro other nobody
    have elsewhere : other ≠ pid := by
      rintro rfl
      exact nobody t point' (Function.update_self ..)
    simp only [Function.update_of_ne elsewhere]
    apply orderly.unserved
    intro u point'' there
    apply nobody u point''
    have here : u ≠ t := by
      rintro rfl
      rw [found] at there
      cases there
      exact elsewhere rfl
    simpa only [Function.update_of_ne here] using there
  · intro u other point'' there
    rcases update_some there with ⟨rfl, rfl, rfl⟩ | ⟨here, before⟩
    · simpa using paired
    · have elsewhere : other ≠ pid := by
        rintro rfl
        exact here (orderly.admitted.thread_unique before found)
      simp only [Function.update_of_ne elsewhere]
      exact (orderly.paired u other point'' before).call orderly.wellFormed accounts call
        (path_ne_threadPath (orderly.admitted.thread_asked before).1
          (orderly.admitted.thread_asked found).1 elsewhere)

/-- Which is what each of its calls is. -/
theorem threadCall_spec (orderly : s.Orderly) {t : ThreadId} {pid : Pid} {point : ThreadPoint}
    (found : s.threads t = some ⟨pid, point⟩) (succeeds : Bool) :
    ∃ files ready point',
      Fifos.Call (.thread t) (threadPath pid) s.files point.holds files point'.holds ∧
      Paired files t pid (s.clients pid) ready point' ∧
      (s.ready pid = true → ready = true) ∧
      s.threadCall t succeeds =
        { s with
          files
          ready := Function.update s.ready pid ready
          threads := Function.update s.threads t (some ⟨pid, point'⟩) } := by
  have paired := orderly.paired t pid point found
  rcases threadCall_cases found succeeds with ⟨rfl, same⟩ | ⟨files, point', move, same⟩
  · have blocked : s.clients pid ≠ .blocking := by
      rcases (paired.quiet trivial).2 with here | here <;> simp [here]
    obtain ⟨ready, awake, signalled⟩ := signalReady_of_ne blocked
    refine ⟨s.files, ready, .openingC2s, .none fun _ => Iff.rfl,
      paired.signalled_signalReady fun waiting => awake (.inl waiting),
      fun told => awake (.inr told), ?_⟩
    rw [same, signalled]
    rfl
  · refine ⟨files, s.ready pid, point', move.call paired.tidy, ?_, id, ?_⟩
    · exact paired.threadMove orderly.wellFormed (orderly.admitted.thread_asked found).1 move
    · rw [same, Function.update_eq_self]

theorem main_step (orderly : s.Orderly) (succeeds : Bool) :
    (connectStep s (.main succeeds)).Orderly := by
  have admitted := orderly.admitted.main succeeds
  rcases connectStep_main s succeeds with ⟨-, same⟩ | ⟨pid, started, same⟩
  · rw [same] at admitted ⊢
    exact ⟨admitted, orderly.wellFormed, orderly.client, orderly.thread, orderly.unborn,
      orderly.unserved, orderly.paired⟩
  · obtain ⟨⟨valid, asked⟩, nobody⟩ := orderly.admitted.starting started
    obtain ⟨silent, idle⟩ := orderly.unserved pid nobody
    have new : s.threads s.started = none := by
      cases found : s.threads s.started with
      | none => rfl
      | some connection =>
          exact absurd (orderly.admitted.bounded _ _ found) (Nat.lt_irrefl _)
    rw [same] at admitted ⊢
    refine ⟨admitted, orderly.wellFormed, orderly.client, ?_, ?_, ?_, ?_⟩
    · intro u other point there
      rcases update_some there with ⟨rfl, rfl, rfl⟩ | ⟨-, there⟩
      · exact orderly.unborn _ new _
      · exact orderly.thread u other point there
    · intro u there
      have here : u ≠ s.started := by
        rintro rfl
        simp at there
      simp only [Function.update_of_ne here] at there
      exact orderly.unborn u there
    · intro other nobody'
      apply orderly.unserved
      intro u point there
      have here : u ≠ s.started := by
        rintro rfl
        rw [new] at there
        contradiction
      exact nobody' u point ((Function.update_of_ne here ..).trans there)
    · intro u other point there
      rcases update_some there with ⟨rfl, rfl, rfl⟩ | ⟨-, there⟩
      · have early := idle.early asked
        refine ⟨?_, fun _ => ⟨silent, early⟩, False.elim, ?_, ?_, List.nodup_nil⟩
        · rcases early with here | here <;> simp [here]
        · intro d here
          cases d <;> simp [ThreadPoint.link] at here
        · intro d here
          cases d <;> simp [ThreadPoint.link] at here
      · exact orderly.paired u other point there

theorem step (orderly : s.Orderly) (action : ConnectAction) :
    (connectStep s action).Orderly := by
  cases action with
  | client pid succeeds => exact orderly.client_step pid (clientStep_moved s pid succeeds)
  | deliver pid onMain =>
      have admitted := orderly.admitted.deliver pid onMain
      simp only [connectStep] at admitted ⊢
      split at admitted
      · rename_i member
        rw [if_pos member]
        exact ⟨admitted, orderly.wellFormed, orderly.client, orderly.thread, orderly.unborn,
          orderly.unserved, orderly.paired⟩
      · rename_i absent
        rwa [if_neg absent]
  | main succeeds => exact orderly.main_step succeeds
  | thread t succeeds =>
      cases found : s.threads t with
      | none => simpa [connectStep, threadCall, found] using orderly
      | some connection =>
          obtain ⟨files, ready, point', call, paired, -, same⟩ :=
            orderly.threadCall_spec found succeeds
          rw [connectStep, same]
          exact orderly.thread_step found call paired

end Orderly

end Connections

/-- Whatever order the steps come in. -/
theorem orderly_reached (left : List Text) (actions : List ConnectAction) :
    (connectionsReached left actions).Orderly :=
  List.foldlRecOn actions connectStep (Connections.orderly_start left)
    fun _ orderly action _ => orderly.step action

/-! ## Who holds a FIFO -/

namespace Connections.Orderly

variable {s : Connections}

/-- Whoever holds an end is a client, or the thread of one, and it is an end of a FIFO made
under a path of that client. -/
theorem holder (orderly : s.Orderly) {party : Party} {place : Fifo × Side}
    (member : party ∈ s.files.held place) :
    ∃ (d : Direction) (pid : Pid), (0 < pid ∧ pid < 2 ^ 31) ∧
      s.files.made[place.1]? = some (d.path pid) ∧
      (party = .client pid ∧ place.2 = d.clientSide ∨
        ∃ t point, s.threads t = some ⟨pid, point⟩ ∧ party = .thread t ∧
          place.2 = d.clientSide.other) := by
  cases party with
  | client pid =>
      have accounts := orderly.client pid
      have holds := (accounts.mem_iff place).mp member
      have valid : 0 < pid ∧ pid < 2 ^ 31 := by
        by_contra invalid
        have idle := (orderly.unserved pid fun t point found =>
          invalid (orderly.admitted.thread_asked found).1).2
        have nothing : (s.clients pid).holds = [] := by
          revert idle
          cases s.clients pid <;> simp [ClientPoint.Idle, ClientPoint.holds]
        rw [nothing] at holds
        exact absurd holds List.not_mem_nil
      have made := accounts.made_eq place holds
      rcases side : place.2 with _ | _
      · exact ⟨.s2c, pid, valid, by rw [made, side]; rfl, .inl ⟨rfl, rfl⟩⟩
      · exact ⟨.c2s, pid, valid, by rw [made, side]; rfl, .inl ⟨rfl, rfl⟩⟩
  | thread t =>
      cases found : s.threads t with
      | none =>
          have holds := ((orderly.unborn t found fun _ => []).mem_iff place).mp member
          exact absurd holds List.not_mem_nil
      | some connection =>
          obtain ⟨pid, point⟩ := connection
          have accounts := orderly.thread t pid point found
          have made := accounts.made_eq place ((accounts.mem_iff place).mp member)
          have valid := (orderly.admitted.thread_asked found).1
          rcases side : place.2 with _ | _
          · exact ⟨.c2s, pid, valid, by rw [made, side]; rfl, .inr ⟨t, point, found, rfl, rfl⟩⟩
          · exact ⟨.s2c, pid, valid, by rw [made, side]; rfl, .inr ⟨t, point, found, rfl, rfl⟩⟩

/-- Two who hold ends of one FIFO. -/
theorem holders (orderly : s.Orderly) {one other : Party} {fifo : Fifo} {side side' : Side}
    (here : one ∈ s.files.held (fifo, side)) (there : other ∈ s.files.held (fifo, side')) :
    ∃ (d : Direction) (pid : Pid),
      (one = .client pid ∧ side = d.clientSide ∨
        ∃ t point, s.threads t = some ⟨pid, point⟩ ∧ one = .thread t ∧
          side = d.clientSide.other) ∧
      (other = .client pid ∧ side' = d.clientSide ∨
        ∃ t point, s.threads t = some ⟨pid, point⟩ ∧ other = .thread t ∧
          side' = d.clientSide.other) := by
  obtain ⟨d, pid, valid, made, first⟩ := orderly.holder here
  obtain ⟨e, pid', valid', made', second⟩ := orderly.holder there
  obtain ⟨rfl, rfl⟩ :=
    Direction.path_inj valid valid' (Option.some.inj (made.symm.trans made'))
  exact ⟨d, pid, first, second⟩

end Connections.Orderly

/-- What a client can rely on.

* The signal of its thread does not end it.
* It has one thread at most.
* Once it has been signalled, it has a thread, and finds both FIFOs for as long as that
  thread goes on.
* Its FIFOs and those of its thread are the same.
* Nobody else opens an end that one party has open, and the other end of its FIFO is open
  to a client and its thread alone. -/
structure Connections.Private (s : Connections) : Prop where
  unharmed : ∀ pid, s.clients pid ≠ .killed
  alone : ∀ t u pid point point', s.threads t = some ⟨pid, point⟩ →
    s.threads u = some ⟨pid, point'⟩ → t = u
  found : ∀ pid, s.ready pid = true ∨ ¬(s.clients pid).Idle →
    ∃ t point, s.threads t = some ⟨pid, point⟩ ∧ (point.Signalled →
      (s.files.entry (c2sPath pid)).isSome ∧ (s.files.entry (s2cPath pid)).isSome)
  same : ∀ t pid c2s s2c c2s' s2c', s.clients pid = .connected c2s s2c →
    s.threads t = some ⟨pid, .serving c2s' s2c'⟩ → c2s = c2s' ∧ s2c = s2c'
  exclusive : ∀ place one other, one ∈ s.files.held place → other ∈ s.files.held place →
    one = other
  opposite : ∀ fifo reader writer, reader ∈ s.files.held (fifo, .read) →
    writer ∈ s.files.held (fifo, .write) →
    ∃ t pid point, s.threads t = some ⟨pid, point⟩ ∧
      (reader = .client pid ∧ writer = .thread t ∨ reader = .thread t ∧ writer = .client pid)

theorem Connections.Orderly.isPrivate {s : Connections} (orderly : s.Orderly) : s.Private where
  unharmed pid := by
    by_cases served : ∃ t point, s.threads t = some ⟨pid, point⟩
    · obtain ⟨t, point, found⟩ := served
      exact (orderly.paired t pid point found).alive
    · have idle := (orderly.unserved pid fun t point found => served ⟨t, point, found⟩).2
      intro here
      rwa [here] at idle
  alone t u pid point point' one other := orderly.admitted.thread_unique one other
  found pid told := by
    by_cases served : ∃ t point, s.threads t = some ⟨pid, point⟩
    · obtain ⟨t, point, found⟩ := served
      refine ⟨t, point, found, fun signalled => ?_⟩
      have there (d : Direction) : (s.files.entry (d.path pid)).isSome := by
        obtain ⟨fifo, entry⟩ := (orderly.paired t pid point found).entry_of_signalled signalled d
        rw [entry, Option.isSome_some]
      exact ⟨there .c2s, there .s2c⟩
    · obtain ⟨silent, idle⟩ := orderly.unserved pid fun t point found => served ⟨t, point, found⟩
      rcases told with ready | busy
      · rw [silent] at ready
        contradiction
      · exact absurd idle busy
  same t pid c2s s2c c2s' s2c' connected serving := by
    have paired := orderly.paired t pid _ serving
    rw [connected] at paired
    exact ⟨(paired.present .c2s rfl).same .write rfl rfl,
      (paired.present .s2c rfl).same .read rfl rfl⟩
  exclusive place one other here there := by
    obtain ⟨d, pid, first, second⟩ := orderly.holders here there
    rcases first with ⟨rfl, side⟩ | ⟨t, point, found, rfl, side⟩ <;>
      rcases second with ⟨rfl, side'⟩ | ⟨u, point', found', rfl, side'⟩
    · rfl
    · exact absurd (side'.symm.trans side) (Side.other_ne _)
    · exact absurd (side.symm.trans side') (Side.other_ne _)
    · rw [orderly.admitted.thread_unique found found']
  opposite fifo reader writer here there := by
    obtain ⟨d, pid, first, second⟩ := orderly.holders here there
    rcases first with ⟨rfl, side⟩ | ⟨t, point, found, rfl, side⟩ <;>
      rcases second with ⟨rfl, side'⟩ | ⟨u, point', found', rfl, side'⟩
    · exact absurd (side.trans side'.symm) (by decide)
    · exact ⟨u, pid, point', found', .inl ⟨rfl, rfl⟩⟩
    · exact ⟨t, pid, point, found, .inr ⟨rfl, rfl⟩⟩
    · exact absurd (side.trans side'.symm) (by decide)

/-- Every client has its FIFOs to itself and its thread, whichever order the steps come in,
whichever calls fail, and whatever earlier runs have left in the directory. -/
theorem connections_are_private (left : List Text) (actions : List ConnectAction) :
    (connectionsReached left actions).Private :=
  (orderly_reached left actions).isPrivate

/-- A client. -/
def clientOne : ClientPid :=
  ⟨100, by decide⟩

/-- Another client. -/
def clientTwo : ClientPid :=
  ⟨200, by decide⟩

/-- A client asks, and the main thread starts a thread for it. -/
def admitting (pid : ClientPid) : List ConnectAction :=
  [.client pid true, .client pid true, .deliver pid true] ++ List.replicate 8 (.main true)

/-- The thread makes the FIFOs, and the two open their ends of them. -/
def joining (pid : ClientPid) (t : ThreadId) : List ConnectAction :=
  List.replicate 5 (.thread t true) ++
    [.client pid true, .client pid true, .thread t true, .thread t true, .client pid true,
      .client pid true, .thread t true, .thread t true, .client pid true]

/-- Two clients, where an earlier run has left a FIFO of the first. -/
def twoConnected : Connections :=
  connectionsReached [ascii "FIFO_C2S_100"]
    (.main true :: (admitting clientOne ++ admitting clientTwo ++ joining clientOne 0 ++
      joining clientTwo 1))

theorem connections_are_private_twoConnected :
    twoConnected.clients 100 = .connected 1 2 ∧ twoConnected.clients 200 = .connected 3 4 ∧
      ∀ c2s s2c, twoConnected.threads 1 = some ⟨200, .serving c2s s2c⟩ → 3 = c2s ∧ 4 = s2c :=
  ⟨by decide +kernel, by decide +kernel, fun c2s s2c =>
    (connections_are_private _ _).same 1 200 3 4 c2s s2c (by decide +kernel)⟩

/-! ## What is left -/

/-- A path that no thread goes by. -/
def Connections.Unclaimed (s : Connections) (path : Text) : Prop :=
  ∀ t pid point, s.threads t = some ⟨pid, point⟩ → path ≠ c2sPath pid ∧ path ≠ s2cPath pid

theorem ClientMove.entry_eq {pid : Pid} {fs fs' : Fifos Text Party} {point point' : ClientPoint}
    {ready ready' : Bool} (move : ClientMove pid fs point ready fs' point' ready') :
    fs'.entry = fs.entry := by
  cases move <;> rfl

namespace Connections.Orderly

variable {s : Connections}

/-- Another path changes only by a call of a thread that goes by it. -/
theorem entry_thread_step {t : ThreadId} {pid : Pid} {point : ThreadPoint}
    (point' : ThreadPoint) {files : Fifos Text Party} {ready : Pid → Bool}
    (found : s.threads t = some ⟨pid, point⟩)
    (call : Fifos.Call (.thread t) (threadPath pid) s.files point.holds files point'.holds)
    {path : Text} (apart : Unclaimed { s with
      files
      ready
      threads := Function.update s.threads t (some ⟨pid, point'⟩) } path) :
    files.entry path = s.files.entry path ∧ s.Unclaimed path := by
  have mine := apart t pid point' (Function.update_self ..)
  constructor
  · apply call.entry_of_ne
    rintro (_ | _)
    · exact mine.1
    · exact mine.2
  · intro u other point'' there
    by_cases here : u = t
    · subst here
      rw [found] at there
      cases there
      exact mine
    · exact apart u other point'' ((Function.update_of_ne here ..).trans there)

theorem entry_step (orderly : s.Orderly) (action : ConnectAction) {path : Text}
    (apart : (connectStep s action).Unclaimed path) :
    (connectStep s action).files.entry path = s.files.entry path ∧ s.Unclaimed path := by
  cases action with
  | client pid succeeds =>
      obtain ⟨files, point, ready, asked, move, -, same⟩ := clientStep_moved s pid succeeds
      rw [connectStep, same] at apart ⊢
      exact ⟨congrFun move.entry_eq path, apart⟩
  | deliver pid onMain =>
      simp only [connectStep] at apart ⊢
      split at apart
      · rename_i member
        rw [if_pos member]
        exact ⟨rfl, apart⟩
      · rename_i absent
        rw [if_neg absent]
        exact ⟨rfl, apart⟩
  | main succeeds =>
      rcases connectStep_main s succeeds with ⟨-, same⟩ | ⟨pid, -, same⟩
      · rw [same] at apart ⊢
        exact ⟨rfl, apart⟩
      · rw [same] at apart ⊢
        refine ⟨rfl, fun t other point there => ?_⟩
        have here : t ≠ s.started := Nat.ne_of_lt (orderly.admitted.bounded t _ there)
        exact apart t other point ((Function.update_of_ne here ..).trans there)
  | thread t succeeds =>
      cases found : s.threads t with
      | none =>
          have same : connectStep s (.thread t succeeds) = s := by
            simp [connectStep, threadCall, found]
          rw [same] at apart ⊢
          exact ⟨rfl, apart⟩
      | some connection =>
          obtain ⟨pid, point⟩ := connection
          obtain ⟨files, ready, point', call, -, -, same⟩ :=
            orderly.threadCall_spec found succeeds
          rw [connectStep, same] at apart ⊢
          exact entry_thread_step point' found call apart

end Connections.Orderly

/-- The paths that no thread goes by are as they were. -/
theorem entry_reached (left : List Text) (actions : List ConnectAction) (path : Text)
    (apart : (connectionsReached left actions).Unclaimed path) :
    (connectionsReached left actions).files.entry path =
      (Connections.start left).files.entry path := by
  refine (List.foldlRecOn (motive := fun s => s.Orderly ∧
    ∀ path, s.Unclaimed path → s.files.entry path = (Connections.start left).files.entry path)
    actions connectStep
      ⟨Connections.orderly_start left, fun _ _ => rfl⟩ ?_).2 path apart
  rintro s ⟨orderly, before⟩ action -
  refine ⟨orderly.step action, fun path apart => ?_⟩
  obtain ⟨same, apart⟩ := orderly.entry_step action apart
  rw [same, before path apart]

/-- A thread that has ended has removed its FIFOs and closed its ends, a client that has
gone has closed its own, and no other path of the directory has changed. -/
theorem fifos_are_removed (left : List Text) (actions : List ConnectAction) :
    let s := connectionsReached left actions
    (∀ t pid, s.threads t = some ⟨pid, .ending []⟩ →
        s.files.entry (c2sPath pid) = none ∧ s.files.entry (s2cPath pid) = none ∧
          ∀ place, .thread t ∉ s.files.held place) ∧
      (∀ pid, s.clients pid = .gone → ∀ place, .client pid ∉ s.files.held place) ∧
      ∀ path, s.Unclaimed path →
        s.files.entry path = (Connections.start left).files.entry path := by
  intro s
  have orderly : s.Orderly := orderly_reached left actions
  refine ⟨fun t pid ended => ?_, fun pid gone place member => ?_, entry_reached left actions⟩
  · have paired := orderly.paired t pid _ ended
    refine ⟨paired.absent .c2s rfl, paired.absent .s2c rfl, fun place member => ?_⟩
    exact List.not_mem_nil (((orderly.thread t pid _ ended).mem_iff place).mp member)
  · have holds := ((orderly.client pid).mem_iff place).mp member
    rw [gone] at holds
    exact List.not_mem_nil holds

/-- One client comes and goes. -/
theorem fifos_are_removed_oneGone :
    let s := connectionsReached [ascii "FIFO_C2S_100"]
      (.main true :: (admitting clientOne ++ joining clientOne 0 ++
        .client clientOne true :: List.replicate 5 (.thread 0 true)))
    (s.files.entry (c2sPath 100) = none ∧ s.files.entry (s2cPath 100) = none ∧
        ∀ place, .thread 0 ∉ s.files.held place) ∧
      (∀ place, .client 100 ∉ s.files.held place) ∧
      s.files.entry (ascii "notes") =
        (Connections.start [ascii "FIFO_C2S_100"]).files.entry (ascii "notes") := by
  intro s
  have removed := fifos_are_removed [ascii "FIFO_C2S_100"]
    (.main true :: (admitting clientOne ++ joining clientOne 0 ++
      .client clientOne true :: List.replicate 5 (.thread 0 true)))
  refine ⟨removed.1 0 100 (by decide +kernel), removed.2.1 100 (by decide +kernel),
    removed.2.2 _ fun t pid point found => ?_⟩
  have valid := ((orderly_reached _ _).admitted.thread_asked found).1
  have longer (d : Direction) : ascii "notes" ≠ d.path pid := by
    intro same
    have length := congrArg List.length same
    rw [d.path_eq valid, List.length_append, d.length_stem] at length
    have short : (ascii "notes").length = 5 := by decide
    omega
  exact ⟨longer .c2s, longer .s2c⟩

end CollabMarkdown.Process
