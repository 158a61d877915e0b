import CollabMarkdown.CString.Decimal
import CollabMarkdown.Posix.Rendezvous
import CollabMarkdown.Process.Admission

/-!
# A client and its thread

From the signal of the thread on, its client and the thread find the same FIFOs under the
two paths of the client, and nobody else opens them.
-/

namespace CollabMarkdown.Process

open CollabMarkdown.CString
open CollabMarkdown.Posix

/-! ## The two directions -/

/-- The two FIFOs of a client: the one it writes to, and the one it reads from. -/
inductive Direction where
  | c2s
  | s2c
  deriving DecidableEq, Repr

namespace Direction

/-- The start of a path. -/
def stem : Direction → Text
  | .c2s => ascii "FIFO_C2S_"
  | .s2c => ascii "FIFO_S2C_"

/-- The path of a FIFO. -/
def path : Direction → Pid → Text
  | .c2s => c2sPath
  | .s2c => s2cPath

/-- The end that a client opens. -/
def clientSide : Direction → Side
  | .c2s => .write
  | .s2c => .read

/-- The step of a thread's end that removes the path. -/
def unlinking : Direction → Teardown
  | .c2s => .unlinkC2s
  | .s2c => .unlinkS2c

/-- Who opens which end. -/
def who (d : Direction) (t : ThreadId) (pid : Pid) (side : Side) : Party :=
  if side = d.clientSide then .client pid else .thread t

theorem who_other_ne (d : Direction) (t : ThreadId) (pid : Pid) (side : Side) :
    d.who t pid side.other ≠ d.who t pid side := by
  cases d <;> cases side <;> simp [who, clientSide, Side.other]

theorem length_stem (d : Direction) : d.stem.length = 9 := by
  cases d <;> decide

theorem stem_ne : Direction.c2s.stem ≠ Direction.s2c.stem := by
  decide

/-- The path of a client process is not cut off. -/
theorem path_eq (d : Direction) {pid : Pid} (valid : 0 < pid ∧ pid < 2 ^ 31) :
    d.path pid = d.stem ++ decimal pid.natAbs := by
  have short : (decimal pid.natAbs).length ≤ 20 := by
    apply length_decimal_le
    have bound : pid.natAbs < 2 ^ 31 := by
      have := valid.2
      have := valid.1
      grind
    exact bound.trans (by decide)
  have printed : decimalInt pid = decimal pid.natAbs := if_neg (not_lt.mpr valid.1.le)
  have fits : (d.stem ++ decimal pid.natAbs).length < fifoPathSize := by
    rw [List.length_append, length_stem, fifoPathSize]
    omega
  cases d with
  | c2s =>
      rw [← printed] at fits ⊢
      exact snprintf_of_length_lt fits
  | s2c =>
      rw [← printed] at fits ⊢
      exact snprintf_of_length_lt fits

/-- Client processes have paths of their own, for either direction. -/
theorem path_inj {d e : Direction} {pid other : Pid} (valid : 0 < pid ∧ pid < 2 ^ 31)
    (valid' : 0 < other ∧ other < 2 ^ 31) (same : d.path pid = e.path other) :
    d = e ∧ pid = other := by
  rw [d.path_eq valid, e.path_eq valid'] at same
  obtain ⟨stems, digits⟩ := List.append_inj same (by rw [length_stem, length_stem])
  constructor
  · cases d <;> cases e
    · rfl
    · exact absurd stems stem_ne
    · exact absurd stems stem_ne.symm
    · rfl
  · have equal := decimal_injective digits
    have := valid.1
    have := valid'.1
    grind

end Direction

/-! ## The ends that are held -/

/-- The path whose FIFO a client opens at one end. -/
def clientPath (pid : Pid) : Side → Text
  | .write => c2sPath pid
  | .read => s2cPath pid

/-- The path whose FIFO a thread opens at one end. -/
def threadPath (pid : Pid) : Side → Text
  | .read => c2sPath pid
  | .write => s2cPath pid

/-- The ends that a client has opened and not closed. -/
def ClientPoint.holds : ClientPoint → List (Fifo × Side)
  | .meetingC2s c2s _ | .openingS2c c2s => [(c2s, .write)]
  | .meetingS2c c2s s2c _ | .connected c2s s2c => [(c2s, .write), (s2c, .read)]
  | .blocking | .asking | .waiting | .openingC2s | .gone | .killed => []

/-- The end that is still to be closed. -/
def Teardown.closes : Teardown → Option (Fifo × Side)
  | .closeC2s c2s => some (c2s, .read)
  | .closeS2c s2c => some (s2c, .write)
  | .unlinkC2s | .unlinkS2c => none

/-- The ends that a thread has opened and not closed. -/
def ThreadPoint.holds : ThreadPoint → List (Fifo × Side)
  | .meetingC2s c2s _ | .openingS2c c2s => [(c2s, .read)]
  | .meetingS2c c2s s2c _ | .serving c2s s2c => [(c2s, .read), (s2c, .write)]
  | .ending rest => rest.filterMap Teardown.closes
  | .unlinkingC2s | .unlinkingS2c | .makingC2s | .makingS2c | .signalling | .openingC2s => []

theorem ClientMove.call {pid : Pid} {fs fs' : Fifos Text Party} {point point' : ClientPoint}
    {ready ready' : Bool} (move : ClientMove pid fs point ready fs' point' ready') :
    Fifos.Call (.client pid) (clientPath pid) fs point.holds fs' point'.holds := by
  have same (holds : List (Fifo × Side)) :
      Fifos.Call (.client pid) (clientPath pid) fs holds fs holds := .none fun _ => Iff.rfl
  cases move with
  | stay | block | ask | wake | meetC2s | meetS2c => exact same _
  | openC2s _ found => exact .arrive .write found
  | openS2c c2s _ found => exact .arrive .read found
  | leave => exact .releaseAll

theorem ThreadPoint.Ends.mem_holds {point : ThreadPoint} {rest : List Teardown}
    (ends : point.Ends rest) (place : Fifo × Side) :
    place ∈ (ThreadPoint.ending rest).holds ↔ place ∈ point.holds := by
  cases ends <;> simp [holds, Teardown.closes, Connections.cleanupFifoPair, eq_comm, or_comm]

theorem mem_tail_iff {place : Fifo × Side} {rest : List (Fifo × Side)}
    (tidy : (place :: rest).Nodup) (other : Fifo × Side) :
    other ∈ rest ↔ other ∈ place :: rest ∧ other ≠ place := by
  have absent := (List.nodup_cons.mp tidy).1
  rw [List.mem_cons]
  grind

theorem ThreadMove.call {t : ThreadId} {pid : Pid} {fs fs' : Fifos Text Party}
    {point point' : ThreadPoint} (move : ThreadMove t pid fs point fs' point')
    (tidy : point.holds.Nodup) :
    Fifos.Call (.thread t) (threadPath pid) fs point.holds fs' point'.holds := by
  have same (holds : List (Fifo × Side)) :
      Fifos.Call (.thread t) (threadPath pid) fs holds fs holds := .none fun _ => Iff.rfl
  cases move with
  | stay | meetC2s | meetS2c => exact same _
  | unlinkC2s => exact .unlink .read
  | unlinkS2c => exact .unlink .write
  | makeC2s made => exact .mkfifo .read made
  | makeS2c made => exact .mkfifo .write made
  | openC2s found => exact .arrive .read found
  | openS2c c2s found => exact .arrive .write found
  | interruptC2s c2s ticket =>
      refine .release fun place => ?_
      simp [ThreadPoint.holds, Connections.cleanupFifoPair, Teardown.closes]
  | interruptS2c c2s s2c ticket =>
      refine .release fun place => ?_
      simp only [ThreadPoint.holds, Connections.cleanupFifoPair, Teardown.closes,
        List.filterMap_cons, List.filterMap_nil, List.mem_cons, List.not_mem_nil, or_false]
      grind
  | finish ends => exact .none ends.mem_holds
  | undo first rest =>
      cases first with
      | closeC2s c2s => exact .release (mem_tail_iff tidy)
      | closeS2c s2c => exact .release (mem_tail_iff tidy)
      | unlinkC2s => exact .unlink .read
      | unlinkS2c => exact .unlink .write

theorem ThreadMove.tidy {t : ThreadId} {pid : Pid} {fs fs' : Fifos Text Party}
    {point point' : ThreadPoint} (move : ThreadMove t pid fs point fs' point')
    (tidy : point.holds.Nodup) : point'.holds.Nodup := by
  cases move with
  | stay | unlinkC2s | unlinkS2c | makeC2s | makeS2c | meetC2s | meetS2c => exact tidy
  | openC2s | openS2c | interruptC2s | interruptS2c =>
      simp [ThreadPoint.holds, List.filterMap_cons, Connections.cleanupFifoPair, Teardown.closes]
  | finish ends =>
      cases ends <;> simp [ThreadPoint.holds, List.filterMap_cons, Connections.cleanupFifoPair,
        Teardown.closes]
  | undo first rest => exact tidy.sublist ((List.sublist_cons_self first rest).filterMap _)

/-! ## Stages -/

/-- How far a client has got in either direction. -/
def ClientPoint.stage : ClientPoint → Direction → Stage
  | .blocking, _ | .asking, _ | .waiting, _ | .openingC2s, _ => .ahead
  | .meetingC2s c2s ticket, .c2s => .waiting c2s ticket
  | .meetingC2s _ _, .s2c => .ahead
  | .openingS2c c2s, .c2s => .through c2s
  | .openingS2c _, .s2c => .ahead
  | .meetingS2c c2s _ _, .c2s => .through c2s
  | .meetingS2c _ s2c ticket, .s2c => .waiting s2c ticket
  | .connected c2s _, .c2s => .through c2s
  | .connected _ s2c, .s2c => .through s2c
  | .gone, _ | .killed, _ => .departed

/-- How far a thread has got with one of its FIFOs. -/
def ThreadPoint.stage : ThreadPoint → Direction → Stage
  | .unlinkingC2s, _ | .unlinkingS2c, _ | .makingC2s, _ | .makingS2c, _ | .signalling, _
  | .openingC2s, _ => .ahead
  | .meetingC2s c2s ticket, .c2s => .waiting c2s ticket
  | .meetingC2s _ _, .s2c => .ahead
  | .openingS2c c2s, .c2s => .through c2s
  | .openingS2c _, .s2c => .ahead
  | .meetingS2c c2s _ _, .c2s => .through c2s
  | .meetingS2c _ s2c ticket, .s2c => .waiting s2c ticket
  | .serving c2s _, .c2s => .through c2s
  | .serving _ s2c, .s2c => .through s2c
  | .ending _, _ => .departed

/-- The stages at both ends. -/
def Direction.stage (d : Direction) (client : ClientPoint) (thread : ThreadPoint) (side : Side) :
    Stage :=
  if side = d.clientSide then client.stage d else thread.stage d

theorem Direction.stage_client (d : Direction) (client client' : ClientPoint)
    (thread : ThreadPoint) : d.stage client' thread =
      Function.update (d.stage client thread) d.clientSide (client'.stage d) := by
  funext side
  by_cases here : side = d.clientSide <;> simp [stage, here]

theorem Direction.stage_thread (d : Direction) (client : ClientPoint)
    (thread thread' : ThreadPoint) : d.stage client thread' =
      Function.update (d.stage client thread) d.clientSide.other (thread'.stage d) := by
  funext side
  cases d <;> cases side <;> simp [stage, clientSide, Side.other]

/-- What a thread knows about one of its paths. -/
inductive Link where
  | unknown
  | absent
  | present
  deriving DecidableEq, Repr

/-- What a thread at a point knows about its paths. -/
def ThreadPoint.link : ThreadPoint → Direction → Link
  | .unlinkingC2s, _ | .unlinkingS2c, .s2c => .unknown
  | .unlinkingS2c, .c2s | .makingC2s, _ | .makingS2c, .s2c => .absent
  | .makingS2c, .c2s | .signalling, _ | .openingC2s, _ | .meetingC2s _ _, _ | .openingS2c _, _
  | .meetingS2c _ _ _, _ | .serving _ _, _ => .present
  | .ending rest, d => if d.unlinking ∈ rest then .unknown else .absent

/-- A thread that ends removes what it has made. -/
theorem ThreadPoint.Ends.link {point : ThreadPoint} {rest : List Teardown}
    (ends : point.Ends rest) (d : Direction) (here : (ThreadPoint.ending rest).link d = .absent) :
    point.link d = .absent := by
  revert here
  cases ends <;> cases d <;>
    simp [ThreadPoint.link, Direction.unlinking, Connections.cleanupFifoPair]

theorem ThreadPoint.link_ending_ne (rest : List Teardown) (d : Direction) :
    (ThreadPoint.ending rest).link d ≠ .present := by
  rw [link]
  split <;> simp

/-- The thread has not sent its signal. -/
def ThreadPoint.Preparing : ThreadPoint → Prop
  | .unlinkingC2s | .unlinkingS2c | .makingC2s | .makingS2c | .signalling => True
  | .openingC2s | .meetingC2s _ _ | .openingS2c _ | .meetingS2c _ _ _ | .serving _ _
  | .ending _ => False

/-- The thread has sent its signal and goes on. -/
def ThreadPoint.Signalled : ThreadPoint → Prop
  | .openingC2s | .meetingC2s _ _ | .openingS2c _ | .meetingS2c _ _ _ | .serving _ _ => True
  | .unlinkingC2s | .unlinkingS2c | .makingC2s | .makingS2c | .signalling | .ending _ => False

/-- A client and its thread. -/
structure Paired (fs : Fifos Text Party) (t : ThreadId) (pid : Pid) (client : ClientPoint)
    (ready : Bool) (thread : ThreadPoint) : Prop where
  alive : client ≠ .killed
  quiet : thread.Preparing → ready = false ∧ (client = .waiting ∨ client = .gone)
  signalled : thread.Signalled → client = .waiting → ready = true
  absent : ∀ d : Direction, thread.link d = .absent → fs.entry (d.path pid) = none
  present : ∀ d : Direction, thread.link d = .present →
    MeetAt fs (d.path pid) (d.who t pid) (d.stage client thread)
  tidy : thread.holds.Nodup

namespace Paired

variable {fs fs' : Fifos Text Party} {t : ThreadId} {pid : Pid} {client client' : ClientPoint}
  {ready ready' : Bool} {thread thread' : ThreadPoint}

theorem entry_of_signalled (paired : Paired fs t pid client ready thread)
    (signalled : thread.Signalled) (d : Direction) :
    ∃ fifo, fs.entry (d.path pid) = some fifo := by
  have linked : thread.link d = .present := by
    revert signalled
    cases thread <;> simp [ThreadPoint.Signalled, ThreadPoint.link]
  obtain ⟨fifo, found, -⟩ := paired.present d linked
  exact ⟨fifo, found⟩

/-- Calls of those who go by other paths. -/
theorem call (paired : Paired fs t pid client ready thread) (wellFormed : fs.WellFormed)
    {visitor : Party} {paths : Side → Text} {holds rest : List (Fifo × Side)}
    (accounts : fs.Accounts visitor paths holds)
    (call : Fifos.Call visitor paths fs holds fs' rest)
    (apart : ∀ (d : Direction) (side : Side), d.path pid ≠ paths side) :
    Paired fs' t pid client ready thread where
  alive := paired.alive
  quiet := paired.quiet
  signalled := paired.signalled
  absent d here := (call.entry_of_ne (apart d)).trans (paired.absent d here)
  present d here := (paired.present d here).call wellFormed accounts call (apart d)
  tidy := paired.tidy

/-- The client goes on at one end, or stays ahead of both. -/
theorem client_quiet (paired : Paired fs t pid client ready thread)
    (busy : client ≠ .waiting ∧ client ≠ .gone) : ¬thread.Preparing := by
  intro preparing
  rcases (paired.quiet preparing).2 with waiting | gone
  · exact busy.1 waiting
  · exact busy.2 gone

/-- A call of the client. -/
theorem clientMove (paired : Paired fs t pid client ready thread) (wellFormed : fs.WellFormed)
    (valid : 0 < pid ∧ pid < 2 ^ 31) (asked : client.Asked)
    (move : ClientMove pid fs client ready fs' client' ready') :
    Paired fs' t pid client' ready' thread := by
  have apart (d e : Direction) (different : d ≠ e) : d.path pid ≠ e.path pid :=
    fun same => different (Direction.path_inj valid valid same).1
  cases move with
  | stay => exact paired
  | block | ask => exact absurd asked id
  | wake =>
      constructor
      · simp
      · intro preparing
        exact absurd (paired.quiet preparing).1 (by simp)
      · simp
      · exact paired.absent
      · exact paired.present
      · exact paired.tidy
  | openC2s ready found =>
      refine ⟨by simp, fun preparing => absurd preparing (paired.client_quiet (by simp)),
        by simp, paired.absent, fun d here => ?_, paired.tidy⟩
      cases d with
      | c2s =>
          rw [Direction.stage_client .c2s .openingC2s]
          exact (paired.present .c2s here).arrive found rfl
      | s2c =>
          exact (paired.present .s2c here).arrive_of_ne wellFormed found
            (apart .s2c .c2s (by decide)) .write (.client pid)
  | meetC2s ready met =>
      refine ⟨by simp, fun preparing => absurd preparing (paired.client_quiet (by simp)),
        by simp, paired.absent, fun d here => ?_, paired.tidy⟩
      cases d with
      | c2s =>
          rw [Direction.stage_client .c2s (.meetingC2s _ _)]
          exact (paired.present .c2s here).meet rfl met
      | s2c => exact paired.present .s2c here
  | openS2c c2s ready found =>
      refine ⟨by simp, fun preparing => absurd preparing (paired.client_quiet (by simp)),
        by simp, paired.absent, fun d here => ?_, paired.tidy⟩
      cases d with
      | c2s =>
          exact (paired.present .c2s here).arrive_of_ne wellFormed found
            (apart .c2s .s2c (by decide)) .read (.client pid)
      | s2c =>
          rw [Direction.stage_client .s2c (.openingS2c c2s)]
          exact (paired.present .s2c here).arrive found rfl
  | meetS2c ready met =>
      refine ⟨by simp, fun preparing => absurd preparing (paired.client_quiet (by simp)),
        by simp, paired.absent, fun d here => ?_, paired.tidy⟩
      cases d with
      | c2s => exact paired.present .c2s here
      | s2c =>
          rw [Direction.stage_client .s2c (.meetingS2c _ _ _)]
          exact (paired.present .s2c here).meet rfl met
  | leave ready alive =>
      refine ⟨by simp, fun preparing => ⟨(paired.quiet preparing).1, .inr rfl⟩, by simp,
        paired.absent, fun d here => ?_, paired.tidy⟩
      rw [d.stage_client client]
      have left := (paired.present d here).leave (d.who_other_ne t pid d.clientSide)
      have who : d.who t pid d.clientSide = .client pid := if_pos rfl
      rw [who] at left
      exact left

/-- Neither end has been opened before the signal. -/
theorem away (d : Direction) (early : client = .waiting ∨ client = .gone)
    (ahead : thread.stage d = .ahead) (side : Side) :
    d.stage client thread side = .ahead ∨ d.stage client thread side = .departed := by
  rcases early with rfl | rfl <;> by_cases here : side = d.clientSide <;>
    simp [Direction.stage, here, ahead, ClientPoint.stage]

/-- The signal finds the client waiting, or gone. -/
theorem signalled_signalReady (paired : Paired fs t pid client ready .signalling)
    (awake : client = .waiting → ready' = true) :
    Paired fs t pid client ready' .openingC2s where
  alive := paired.alive
  quiet := False.elim
  signalled _ := awake
  absent d here := by cases d <;> simp [ThreadPoint.link] at here
  present d _ := paired.present d rfl
  tidy := paired.tidy

/-- Another call of the thread. -/
theorem threadMove (paired : Paired fs t pid client ready thread) (wellFormed : fs.WellFormed)
    (valid : 0 < pid ∧ pid < 2 ^ 31) (move : ThreadMove t pid fs thread fs' thread') :
    Paired fs' t pid client ready thread' := by
  have apart (d e : Direction) (different : d ≠ e) : d.path pid ≠ e.path pid :=
    fun same => different (Direction.path_inj valid valid same).1
  have tidy := move.tidy paired.tidy
  cases move with
  | stay => exact paired
  | unlinkC2s =>
      refine ⟨paired.alive, fun _ => paired.quiet trivial, False.elim, fun d here => ?_,
        fun d here => ?_, tidy⟩
      · cases d with
        | c2s => exact Fifos.entry_unlink_self ..
        | s2c => simp [ThreadPoint.link] at here
      · cases d <;> simp [ThreadPoint.link] at here
  | unlinkS2c =>
      refine ⟨paired.alive, fun _ => paired.quiet trivial, False.elim, fun d _ => ?_,
        fun d here => ?_, tidy⟩
      · cases d with
        | c2s => exact Fifos.entry_unlink_of_none (paired.absent .c2s rfl) _
        | s2c => exact Fifos.entry_unlink_self ..
      · cases d <;> simp [ThreadPoint.link] at here
  | makeC2s made =>
      have quiet := paired.quiet trivial
      refine ⟨paired.alive, fun _ => quiet, False.elim, fun d here => ?_, fun d here => ?_, tidy⟩
      · cases d with
        | c2s => simp [ThreadPoint.link] at here
        | s2c =>
            exact (Fifos.entry_mkfifo_of_ne made (apart .s2c .c2s (by decide))).trans
              (paired.absent .s2c rfl)
      · cases d with
        | c2s => exact .make wellFormed made (away .c2s quiet.2 rfl)
        | s2c => simp [ThreadPoint.link] at here
  | makeS2c made =>
      have quiet := paired.quiet trivial
      refine ⟨paired.alive, fun _ => quiet, False.elim, fun d here => ?_, fun d _ => ?_, tidy⟩
      · cases d <;> simp [ThreadPoint.link] at here
      · cases d with
        | c2s => exact (paired.present .c2s rfl).make_of_ne made (apart .c2s .s2c (by decide))
        | s2c => exact .make wellFormed made (away .s2c quiet.2 rfl)
  | openC2s found =>
      refine ⟨paired.alive, False.elim, fun _ => paired.signalled trivial, paired.absent,
        fun d here => ?_, tidy⟩
      cases d with
      | c2s =>
          rw [Direction.stage_thread .c2s client .openingC2s]
          exact (paired.present .c2s here).arrive found rfl
      | s2c =>
          exact (paired.present .s2c here).arrive_of_ne wellFormed found
            (apart .s2c .c2s (by decide)) .read (.thread t)
  | meetC2s met =>
      refine ⟨paired.alive, False.elim, fun _ => paired.signalled trivial, paired.absent,
        fun d here => ?_, tidy⟩
      cases d with
      | c2s =>
          rw [Direction.stage_thread .c2s client (.meetingC2s _ _)]
          exact (paired.present .c2s here).meet rfl met
      | s2c => exact paired.present .s2c here
  | openS2c c2s found =>
      refine ⟨paired.alive, False.elim, fun _ => paired.signalled trivial, paired.absent,
        fun d here => ?_, tidy⟩
      cases d with
      | c2s =>
          exact (paired.present .c2s here).arrive_of_ne wellFormed found
            (apart .c2s .s2c (by decide)) .write (.thread t)
      | s2c =>
          rw [Direction.stage_thread .s2c client (.openingS2c c2s)]
          exact (paired.present .s2c here).arrive found rfl
  | meetS2c met =>
      refine ⟨paired.alive, False.elim, fun _ => paired.signalled trivial, paired.absent,
        fun d here => ?_, tidy⟩
      cases d with
      | c2s => exact paired.present .c2s here
      | s2c =>
          rw [Direction.stage_thread .s2c client (.meetingS2c _ _ _)]
          exact (paired.present .s2c here).meet rfl met
  | interruptC2s | interruptS2c =>
      refine ⟨paired.alive, False.elim, False.elim, fun d here => ?_,
        fun d here => absurd here (ThreadPoint.link_ending_ne _ d), tidy⟩
      cases d <;>
        simp [ThreadPoint.link, Direction.unlinking, Connections.cleanupFifoPair] at here
  | finish ends =>
      exact ⟨paired.alive, False.elim, False.elim, fun d here => paired.absent d (ends.link d here),
        fun d here => absurd here (ThreadPoint.link_ending_ne _ d), tidy⟩
  | undo first rest =>
      refine ⟨paired.alive, False.elim, False.elim, fun d here => ?_,
        fun d here => absurd here (ThreadPoint.link_ending_ne _ d), tidy⟩
      have removed : d.unlinking ∉ rest := by
        intro member
        simp [ThreadPoint.link, member] at here
      by_cases now : first = d.unlinking
      · rw [now]
        cases d <;> exact Fifos.entry_unlink_self ..
      · have before := paired.absent d
          (if_neg (List.not_mem_cons_of_ne_of_not_mem (Ne.symm now) removed))
        cases first with
        | closeC2s | closeS2c => exact before
        | unlinkC2s | unlinkS2c => exact Fifos.entry_unlink_of_none before _

end Paired

end CollabMarkdown.Process
