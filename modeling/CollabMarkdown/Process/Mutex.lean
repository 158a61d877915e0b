import CollabMarkdown.Process.Delivery
import CollabMarkdown.Process.Statements

/-!
# Sections are atomic

The threads taken statement by statement reach what the system of whole sections
reaches, for any schedule.  Under the mutex a thread touches its own stream and
those of the registered clients, and no thread that closes a stream by itself is
registered; so what happens outside the sections commutes with them.
-/

namespace CollabMarkdown.Process

open CollabMarkdown.CString
open CollabMarkdown.Command
open CollabMarkdown.Core
open CollabMarkdown.Markdown
open CollabMarkdown.Transition
open CollabMarkdown.Transition.LockedProgram

/-! ## Points -/

namespace Point

/-- The client of the thread is registered. -/
def registered : Point → Bool
  | .connected | .serving | .holding _ | .submitting _ | .committing | .broadcasting _
  | .putting _ _ | .flushing _ _ _ | .executed | .leaving | .removing => true
  | _ => false

/-- The streams that a broadcast has still to serve. -/
def due : Point → List StreamId
  | .putting _ conns => conns.map (·.outStream)
  | .flushing _ out rest => out :: rest.map (·.outStream)
  | _ => []

/-- The phase of a thread outside the sections. -/
def phase : Point → Option Phase
  | .connecting => some .connecting
  | .serving => some .serving
  | .holding line => some (.holding line)
  | .leaving => some .leaving
  | .closing | .finished => some .finished
  | _ => none

/-- The work left in a section, with so many clients registered. -/
def rank (count : Nat) : Point → Nat
  | .flattening => 7
  | .printingRole _ => 6
  | .printingVersion _ => 5
  | .printingLength _ => 4
  | .writingText _ => 3
  | .flushingDocument => 2
  | .registering | .removing => 1
  | .submitting _ => 2 * count + 4
  | .committing => 2 * count + 3
  | .broadcasting _ => 2 * count + 2
  | .putting _ conns => 2 * conns.length + 1
  | .flushing _ _ rest => 2 * rest.length + 2
  | _ => 0

end Point

section

variable (clients : ThreadId → ClientInfo)

theorem bracketed : (serverThreads clients).Bracketed where
  lock := by
    intro t point next found
    cases point <;> cases found <;> rfl
  inside := by
    intro t point work found sh
    cases point with
    | flattening =>
        cases found
        simp only [serverThreads]
        cases Id.run (serverCoreFlattenDoc sh.server) <;> rfl
    | printingLength docText =>
        cases found
        simp only [serverThreads]
        split <;> rfl
    | registering =>
        cases found
        simp only [serverThreads, registerStatement]
        split <;> rfl
    | committing =>
        cases found
        simp only [serverThreads, commitStatement]
        cases (Id.run (serverCoreCommit sh.server)).1 <;> rfl
    | putting payload conns =>
        cases found
        cases conns <;> rfl
    | _ => cases found <;> rfl
  unlock := by
    intro t point next found
    cases point <;> cases found <;> rfl
  outside := by
    intro t point work found sh
    cases point <;> cases found <;> try rfl
    simp only [serverThreads, readStatement]
    split
    · rfl
    · rfl
    · split <;> rfl

end

/-- A read blocks, ends the loop or takes a line, and uses up bytes of its own inbox. -/
theorem readStatement_cases (t : ThreadId) (sh : Shared) :
    readStatement t sh = (.serving, sh) ∨
      (∃ incoming, readStatement t sh = (.leaving, { sh with
        inboxes := Function.update sh.inboxes t { sh.inboxes t with incoming } })) ∨
      ∃ incoming line, readStatement t sh = (.holding line, { sh with
        inboxes := Function.update sh.inboxes t { sh.inboxes t with incoming } }) := by
  match found : fgets commandLineSize (sh.inboxes t).hungUp (sh.inboxes t).incoming with
  | none => exact .inl (by simp [readStatement, found])
  | some (none, incoming) => exact .inr (.inl ⟨incoming, by simp [readStatement, found]⟩)
  | some (some buffer, incoming) =>
      by_cases quit : isQuit (untilNul buffer) = true
      · exact .inr (.inl ⟨incoming, by simp [readStatement, found, quit]⟩)
      · exact .inr (.inr ⟨incoming, untilNul buffer, by simp [readStatement, found, quit]⟩)

/-! ## The invariant -/

theorem unlinkConn_eq_none {pid : Pid} {conns : List ClientConn}
    (absent : ∀ conn ∈ conns, conn.pid ≠ pid) : unlinkConn pid conns = none := by
  induction conns with
  | nil => rfl
  | cons first rest ih =>
      obtain ⟨apart, later⟩ := List.forall_mem_cons.mp absent
      simp [unlinkConn, apart, ih later]

/-- With distinct pids, a removal leaves everything but the connection of its pid, and
closes a registered stream if any. -/
theorem clientRegistryRemove_eq {registry : ClientRegistry} (streams : Streams) (pid : Pid)
    (distinct : (registry.head.map (·.pid)).Nodup) :
    (clientRegistryRemove registry streams pid).2.1.head =
        registry.head.filter (·.pid != pid) ∧
      ((clientRegistryRemove registry streams pid).2.2 = streams ∨
        ∃ out ∈ registry.head.map (·.outStream),
          (clientRegistryRemove registry streams pid).2.2 = fclose streams out) := by
  by_cases found : ∃ conn ∈ registry.head, conn.pid = pid
  · obtain ⟨conn, member, rfl⟩ := found
    rw [clientRegistryRemove, unlinkConn_eq distinct member]
    exact ⟨rfl, .inr ⟨conn.outStream, List.mem_map_of_mem member, rfl⟩⟩
  · have absent : ∀ conn ∈ registry.head, conn.pid ≠ pid := fun conn member same =>
      found ⟨conn, member, same⟩
    rw [clientRegistryRemove, unlinkConn_eq_none absent]
    refine ⟨(List.filter_eq_self.mpr fun conn member => ?_).symm, .inl rfl⟩
    simpa using absent conn member

/-- The registered clients are those of threads that have registered and not yet
removed them, and a broadcast has the end of their list to serve. -/
structure Orderly (clients : ThreadId → ClientInfo) (s : LockedState ThreadId Point Shared) :
    Prop where
  owned : s.shared.registry.Owned clients
  registered : ∀ conn ∈ s.shared.registry.head, (s.points conn.outStream).registered = true
  due : ∀ t, (s.points t).due <:+ s.shared.registry.head.map (·.outStream)

theorem orderly_start (clients : ThreadId → ClientInfo) (addr : DocAddr) (others : OtherOps addr) :
    Orderly clients (statementsStart addr others) where
  owned := ⟨fun _ member => absurd member List.not_mem_nil, List.nodup_nil⟩
  registered _ member := absurd member List.not_mem_nil
  due _ := List.nil_suffix

namespace Orderly

variable {clients : ThreadId → ClientInfo} {s : LockedState ThreadId Point Shared}

/-- A statement that leaves the registry alone. -/
theorem frame (orderly : Orderly clients s) {t : ThreadId} {point : Point} {sh : Shared}
    {holder : Option ThreadId} (registry : sh.registry = s.shared.registry)
    (registered : (s.points t).registered = true → point.registered = true)
    (due : point.due <:+ s.shared.registry.head.map (·.outStream)) :
    Orderly clients ⟨sh, Function.update s.points t point, holder⟩ where
  owned := by
    rw [registry]
    exact orderly.owned
  registered conn member := by
    rw [registry] at member
    have before := orderly.registered conn member
    by_cases own : conn.outStream = t
    · simp only [own, Function.update_self]
      exact registered (own ▸ before)
    · simpa [own] using before
  due other := by
    rw [registry]
    by_cases own : other = t
    · subst own
      simpa using due
    · simpa [own] using orderly.due other

/-- A thread with streams to serve is in its section. -/
theorem due_nil (exclusive : (serverThreads clients).Exclusive s) {t other : ThreadId}
    (held : s.holder = some t) (apart : other ≠ t) : (s.points other).due = [] := by
  have unguarded : ¬((serverThreads clients).current s other).guarded = true := by
    rw [exclusive other, held]
    exact fun same => apart (Option.some.inj same).symm
  cases point : s.points other with
  | putting payload conns =>
      exact absurd (by simp [current, serverThreads, point, statement, Instr.guarded]) unguarded
  | flushing payload out rest =>
      exact absurd (by simp [current, serverThreads, point, statement, Instr.guarded]) unguarded
  | _ => rfl

/-- The registration of a client. -/
theorem register (orderly : Orderly clients s) {t : ThreadId} (at_ : s.points t = .registering)
    {holder : Option ThreadId} :
    Orderly clients
      ⟨(registerStatement (clients t) t s.shared).2,
        Function.update s.points t (registerStatement (clients t) t s.shared).1, holder⟩ := by
  cases found : clientRegistryFind s.shared.registry (clients t).pid with
  | some conn =>
      simp only [registerStatement, run_clientRegistryAdd, found, Option.isSome_some, if_true,
        Bool.false_eq_true, if_false]
      refine orderly.frame rfl ?_ ?_
      · rw [at_]
        exact id
      · exact List.nil_suffix
  | none =>
      simp only [registerStatement, run_clientRegistryAdd, found, Option.isSome_none, if_true,
        Bool.false_eq_true, if_false]
      let before : System :=
        ⟨s.shared.server, s.shared.registry, s.shared.streams, fun _ => ⟨[], false, .connecting⟩⟩
      have owned : before.registry.Owned clients := orderly.owned
      refine ⟨owned.join found, ?_, ?_⟩
      · intro conn member
        rcases List.mem_cons.mp member with rfl | older
        · simp [Point.registered]
        · have before := orderly.registered conn older
          by_cases own : conn.outStream = t
          · simp [own, Point.registered]
          · simpa [own] using before
      · intro other
        by_cases own : other = t
        · subst own
          simp [Point.due]
        · simp only [Function.update_of_ne own]
          exact (orderly.due other).trans (List.suffix_cons _ _)

/-- The removal of a client. -/
theorem remove (orderly : Orderly clients s) (exclusive : (serverThreads clients).Exclusive s)
    {t : ThreadId} (held : s.holder = some t) {sh : Shared}
    (head_eq : sh.registry.head = s.shared.registry.head.filter (·.pid != (clients t).pid)) :
    Orderly clients ⟨sh, Function.update s.points t .left, s.holder⟩ := by
  constructor
  · constructor
    · intro conn member
      rw [head_eq] at member
      exact orderly.owned.pid_eq conn (List.mem_of_mem_filter member)
    · rw [head_eq]
      exact orderly.owned.distinct.sublist (List.filter_sublist.map _)
  · intro conn member
    rw [head_eq] at member
    obtain ⟨older, differs⟩ := List.mem_filter.mp member
    have apart : conn.outStream ≠ t := by
      rintro rfl
      rw [orderly.owned.pid_eq conn older] at differs
      simp at differs
    simpa [apart] using orderly.registered conn older
  · intro other
    by_cases own : other = t
    · subst own
      simp [Point.due]
    · simp [own, due_nil exclusive held own]

/-- Every statement but these two leaves the registry alone. -/
theorem exec (orderly : Orderly clients s) (exclusive : (serverThreads clients).Exclusive s)
    (t : ThreadId) : Orderly clients ((serverThreads clients).exec s t) := by
  have found : (serverThreads clients).current s t = statement (clients t) t (s.points t) := rfl
  have due := orderly.due t
  have none : [] <:+ s.shared.registry.head.map (·.outStream) := List.nil_suffix
  cases point : s.points t with
  | connecting | holding line | leaving =>
      rw [point] at found
      by_cases free : s.holder = .none
      · rw [exec_lock found free]
        refine orderly.frame rfl ?_ none
        rw [point]
        exact id
      · rw [exec_blocked found free]
        exact orderly
  | connected | refused | executed | left =>
      rw [point] at found
      rw [exec_unlock found]
      refine orderly.frame rfl ?_ none
      rw [point]
      exact id
  | printingRole docText | printingVersion docText | writingText docText | flushingDocument
  | submitting line | closing | finished =>
      rw [point] at found
      first | rw [exec_inside found] | rw [exec_outside found]
      refine orderly.frame rfl ?_ none
      rw [point]
      exact id
  | flattening =>
      rw [point] at found
      rw [exec_inside found]
      cases Id.run (serverCoreFlattenDoc s.shared.server) <;>
        (refine orderly.frame rfl ?_ none; rw [point]; exact id)
  | printingLength docText =>
      rw [point] at found
      rw [exec_inside found]
      by_cases text : 0 < docText.length <;>
        (simp only [text, if_true, if_false]
         refine orderly.frame rfl ?_ none
         rw [point]
         exact id)
  | registering =>
      rw [point] at found
      rw [exec_inside found]
      exact orderly.register point
  | serving =>
      rw [point] at found
      rw [exec_outside found]
      rcases readStatement_cases t s.shared with
        blocked | ⟨incoming, ended⟩ | ⟨incoming, line, taken⟩
      · rw [blocked]
        exact orderly.frame rfl (fun _ => rfl) none
      · rw [ended]
        exact orderly.frame rfl (fun _ => rfl) none
      · rw [taken]
        exact orderly.frame rfl (fun _ => rfl) none
  | committing =>
      rw [point] at found
      rw [exec_inside found, commitStatement]
      cases (Id.run (serverCoreCommit s.shared.server)).1 <;>
        exact orderly.frame rfl (fun _ => rfl) none
  | broadcasting payload =>
      rw [point] at found
      rw [exec_inside found]
      exact orderly.frame rfl (fun _ => rfl) List.suffix_rfl
  | putting payload conns =>
      rw [point] at found due
      rw [exec_inside found]
      cases conns with
      | nil => exact orderly.frame rfl (fun _ => rfl) none
      | cons cur rest => exact orderly.frame rfl (fun _ => rfl) due
  | flushing payload out rest =>
      rw [point] at found due
      rw [exec_inside found]
      exact orderly.frame rfl (fun _ => rfl) ((List.suffix_cons _ _).trans due)
  | removing =>
      rw [point] at found
      have held : s.holder = some t := (exclusive t).mp (congrArg Instr.guarded found)
      rw [exec_inside found]
      exact orderly.remove exclusive held
        (clientRegistryRemove_eq s.shared.streams _ orderly.owned.distinct).1

end Orderly

/-! ## What a section leaves alone -/

section

variable {client : ClientInfo} {t : ThreadId} {point : Point} {work : Shared → Point × Shared}

/-- The work of a section does not look at the inboxes. -/
theorem work_inboxes (found : statement client t point = .inside work) (sh : Shared)
    (inboxes : ThreadId → Inbox) :
    work { sh with inboxes } = ((work sh).1, { (work sh).2 with inboxes }) := by
  cases point with
  | putting payload conns => cases found; cases conns <;> rfl
  | _ => cases found <;> rfl

/-- Nor at a stream that is neither its own nor a registered one. -/
theorem work_streams (found : statement client t point = .inside work) {sh : Shared}
    (distinct : (sh.registry.head.map (·.pid)).Nodup) {other : StreamId} (apart : other ≠ t)
    (unregistered : other ∉ sh.registry.head.map (·.outStream)) (spared : other ∉ point.due)
    (stream : OutStream) :
    work { sh with streams := Function.update sh.streams other stream } =
      ((work sh).1,
        { (work sh).2 with streams := Function.update (work sh).2.streams other stream }) := by
  have swap (streams : Streams) (out : StreamId) (differ : other ≠ out)
      (change : OutStream → OutStream) :
      Function.update (Function.update streams other stream) out
          (change (Function.update streams other stream out)) =
        Function.update (Function.update streams out (change (streams out))) other stream := by
    rw [Function.update_of_ne differ.symm, Function.update_comm differ]
  cases point with
  | printingRole docText | printingVersion docText | printingLength docText
  | writingText docText | flushingDocument =>
      cases found
      simp only [Shared.print, Shared.flush, run_fputs, run_fflush]
      congr 2
      first
        | exact swap _ _ apart (·.buffer _)
        | exact swap _ _ apart OutStream.drain
  | registering =>
      cases found
      simp only [registerStatement, run_clientRegistryAdd]
      cases (clientRegistryFind sh.registry client.pid).isSome <;> rfl
  | putting payload conns =>
      cases found
      cases conns with
      | nil => rfl
      | cons cur rest =>
          have differ : other ≠ cur.outStream := fun same =>
            spared (same ▸ List.mem_cons_self)
          simp only [putStatement, run_fputs]
          congr 2
          exact swap _ _ differ (·.buffer _)
  | flushing payload out rest =>
      cases found
      have differ : other ≠ out := fun same => spared (same ▸ List.mem_cons_self)
      simp only [flushStatement, run_fflush]
      congr 2
      exact swap _ _ differ OutStream.drain
  | removing =>
      cases found
      simp only [clientRegistryRemove]
      by_cases found : ∃ conn ∈ sh.registry.head, conn.pid = client.pid
      · obtain ⟨conn, member, same⟩ := found
        have differ : other ≠ conn.outStream := fun same =>
          unregistered (same ▸ List.mem_map_of_mem member)
        rw [← same, unlinkConn_eq distinct member]
        simp only [fclose]
        congr 2
        exact swap _ _ differ fun stream => { stream.drain with closes := stream.closes + 1 }
      · rw [unlinkConn_eq_none fun conn member same => found ⟨conn, member, same⟩]
  | _ => cases found <;> rfl

/-- What a thread does outside its sections. -/
theorem outside_cases (found : statement client t point = .outside work) :
    (point = .closing ∧
        work = fun sh => (.finished, { sh with streams := fclose sh.streams t })) ∨
      (point = .serving ∧ work = readStatement t) ∨
      (point = .finished ∧ work = fun sh => (.finished, sh)) := by
  cases point with
  | closing => cases found; exact .inl ⟨rfl, rfl⟩
  | serving => cases found; exact .inr (.inl ⟨rfl, rfl⟩)
  | finished => cases found; exact .inr (.inr ⟨rfl, rfl⟩)
  | _ => cases found

end

/-- Under the mutex the inboxes stay as they are. -/
theorem inboxes_work {client : ClientInfo} {t : ThreadId} {point : Point}
    {work : Shared → Point × Shared} (found : statement client t point = .inside work)
    (sh : Shared) : (work sh).2.inboxes = sh.inboxes :=
  congrArg (fun out : Point × Shared => out.2.inboxes) (work_inboxes found sh sh.inboxes)

theorem readStatement_congr (t : ThreadId) {sh sh' : Shared} (same : sh'.inboxes = sh.inboxes) :
    readStatement t sh' = ((readStatement t sh).1,
      { sh' with inboxes := (readStatement t sh).2.inboxes }) := by
  simp only [readStatement, same]
  match fgets commandLineSize (sh.inboxes t).hungUp (sh.inboxes t).incoming with
  | none => simp [← same]
  | some (none, incoming) => rfl
  | some (some buffer, incoming) => rfl

theorem Action.world_congr (action : Action) {sh sh' : Shared} (same : sh'.inboxes = sh.inboxes) :
    action.world sh' = { sh' with inboxes := (action.world sh).inboxes } := by
  cases action with
  | step t => simp [Action.world, ← same]
  | send t bytes => simp [Action.world, same]
  | hangUp t => simp [Action.world, same]

variable (clients : ThreadId → ClientInfo)

/-- Closing the stream of a refused client, reading, and what clients do commute with
the sections. -/
theorem commutes : (serverThreads clients).Commutes (Orderly clients) where
  exec _ t orderly exclusive := orderly.exec exclusive t
  world s action actor orderly := by
    rw [step_world actor]
    cases action with
    | step t => cases actor
    | send t bytes => exact ⟨orderly.owned, orderly.registered, orderly.due⟩
    | hangUp t => exact ⟨orderly.owned, orderly.registered, orderly.due⟩
  outside s t other work work' orderly held apart found found' := by
    rcases outside_cases found' with ⟨closing, rfl⟩ | ⟨-, rfl⟩ | ⟨-, rfl⟩
    · have unregistered : other ∉ s.shared.registry.head.map (·.outStream) := by
        intro member
        obtain ⟨conn, inside, rfl⟩ := List.mem_map.mp member
        have registered := orderly.registered conn inside
        rw [closing] at registered
        cases registered
      have spared : other ∉ (s.points t).due := fun due =>
        unregistered ((orderly.due t).mem due)
      have same := work_streams found orderly.owned.distinct apart unregistered spared
        (s.shared.streams other)
      have kept : (work s.shared).2.streams other = s.shared.streams other := by
        have streams := congrArg (fun out : Point × Shared => out.2.streams other) same
        simpa using streams
      have moved := work_streams found orderly.owned.distinct apart unregistered spared
        { (s.shared.streams other).drain with closes := (s.shared.streams other).closes + 1 }
      simp only [fclose, moved, kept, and_self]
    · have moved := work_inboxes found s.shared (readStatement other s.shared).2.inboxes
      have same := readStatement_congr other (inboxes_work found s.shared)
      rw [readStatement_congr other (rfl : s.shared.inboxes = s.shared.inboxes), moved, same]
      exact ⟨rfl, rfl, rfl⟩
    · exact ⟨rfl, rfl, rfl⟩
  environment s t action work orderly held found actor := by
    have moved := work_inboxes found s.shared (action.world s.shared).inboxes
    have same := Action.world_congr action (inboxes_work found s.shared)
    simp only [serverThreads]
    rw [Action.world_congr action (rfl : s.shared.inboxes = s.shared.inboxes), moved, same]
    exact ⟨rfl, rfl⟩

/-- The work left in the section under way. -/
def sectionRank (s : LockedState ThreadId Point Shared) : Nat :=
  match s.holder with
  | none => 0
  | some t => (s.points t).rank s.shared.registry.head.length

theorem sectionRank_of_held {s : LockedState ThreadId Point Shared} {t : ThreadId}
    (held : s.holder = some t) :
    sectionRank s = (s.points t).rank s.shared.registry.head.length := by
  rw [sectionRank, held]

theorem rank_work {client : ClientInfo} {t : ThreadId} {point : Point}
    {work : Shared → Point × Shared} (found : statement client t point = .inside work)
    (sh : Shared) :
    (work sh).1.rank (work sh).2.registry.head.length <
      point.rank sh.registry.head.length := by
  cases point with
  | flattening =>
      cases found
      simp only [run_serverCoreFlattenDoc]
      exact Nat.lt_succ_self _
  | printingLength docText =>
      cases found
      by_cases text : 0 < docText.length <;> simp [text, Point.rank]
  | registering =>
      cases found
      simp only [registerStatement, run_clientRegistryAdd]
      cases (clientRegistryFind sh.registry client.pid).isSome <;> exact Nat.zero_lt_one
  | submitting line =>
      cases found
      exact Nat.lt_succ_self _
  | committing =>
      cases found
      simp only [commitStatement, run_serverCoreCommit]
      cases printPayload sh.server.log sh.server.commit.core.currentVersion with
      | none => simp [Point.rank]
      | some payload => exact Nat.lt_succ_self _
  | putting payload conns =>
      cases found
      cases conns with
      | nil => exact Nat.zero_lt_one
      | cons cur rest =>
          simp only [putStatement, run_fputs, if_true, Point.rank, List.length_cons]
          omega
  | broadcasting payload | flushing payload out rest =>
      cases found
      exact Nat.lt_succ_self _
  | _ => cases found <;> exact Nat.lt_succ_self _

/-- A section takes two statements for each registered client and a few more. -/
theorem sectionRank_le {s : LockedState ThreadId Point Shared} (orderly : Orderly clients s) :
    sectionRank s ≤ 2 * s.shared.registry.head.length + 7 := by
  cases held : s.holder with
  | none => simp [sectionRank, held]
  | some t =>
      have due := (orderly.due t).length_le
      rw [sectionRank_of_held held]
      cases point : s.points t <;>
        simp only [point, Point.due, Point.rank, List.length_map, List.length_cons] at due ⊢ <;>
        omega

theorem bounded : (serverThreads clients).Bounded (Orderly clients) sectionRank where
  lowers s t work _ held found := by
    have lower := rank_work found s.shared
    rw [exec_inside found, sectionRank_of_held held, sectionRank, held]
    simpa using lower
  outside s t other work _ held apart found := by
    have registry : (work s.shared).2.registry = s.shared.registry := by
      rcases outside_cases found with ⟨-, rfl⟩ | ⟨-, rfl⟩ | ⟨-, rfl⟩
      · rfl
      · rcases readStatement_cases other s.shared with
          blocked | ⟨incoming, ended⟩ | ⟨incoming, line, taken⟩
        · rw [blocked]
        · rw [ended]
        · rw [taken]
      · rfl
    rw [exec_outside found, sectionRank_of_held held, sectionRank, held]
    simp [registry, apart.symm]
  environment s action _ actor := by
    rw [step_world actor]
    cases action with
    | step t => cases actor
    | send t bytes => exact Nat.le_refl _
    | hangUp t => exact Nat.le_refl _

end CollabMarkdown.Process
