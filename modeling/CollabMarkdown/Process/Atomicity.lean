import Mathlib.Data.List.Infix
import CollabMarkdown.Process.Mutex

/-!
# From statements to sections

A state in which nobody holds the mutex shows a state of the system of whole
sections.  A section run to its end comes to what the system does in one step; so
the system follows every schedule of single statements.
-/

namespace CollabMarkdown.Process

open CollabMarkdown.CString
open CollabMarkdown.Command
open CollabMarkdown.Core
open CollabMarkdown.Markdown
open CollabMarkdown.Transition
open CollabMarkdown.Transition.LockedProgram

/-! ## The sections, statement by statement -/

section

variable (clients : ThreadId → ClientInfo) (points : ThreadId → Point) (t : ThreadId)

/-- Sending the initial document leads in front of the registration. -/
theorem settles_document {n : Nat} {sh : Shared} {settled : LockedState ThreadId Point Shared}
    (later : (serverThreads clients).Settles n
      (.within points t .registering { sh with
        streams := Function.update sh.streams t ((sh.streams t).send
          (initialDocument (clients t).role sh.server.core.currentVersion
            sh.server.store.committedText)) }) settled) :
    ∃ m, (serverThreads clients).Settles m (.within points t .flattening sh) settled := by
  let text := sh.server.store.committedText
  let withRole := sh.print t (roleToWireString (clients t).role ++ [newline])
  let withVersion := withRole.print t (decimal sh.server.core.currentVersion.toNat ++ [newline])
  let withLength := withVersion.print t (decimal text.length ++ [newline])
  have flushed (sh' : Shared) (same : sh'.flush t = { sh with
      streams := Function.update sh.streams t ((sh.streams t).send
        (initialDocument (clients t).role sh.server.core.currentVersion text)) }) :
      (serverThreads clients).Settles (n + 1) (.within points t .flushingDocument sh') settled := by
    apply Settles.inside rfl
    rw [same]
    exact later
  have written : ∃ m, (serverThreads clients).Settles m
      (.within points t (if 0 < text.length then .writingText text else .flushingDocument)
        withLength) settled := by
    by_cases empty : text = []
    · rw [empty, List.length_nil, if_neg (Nat.lt_irrefl 0)]
      refine ⟨_, flushed withLength ?_⟩
      simp [withLength, withVersion, withRole, Shared.print, Shared.flush, initialDocument, empty,
        OutStream.send, OutStream.buffer]
    · rw [if_pos (List.length_pos_of_ne_nil empty)]
      refine ⟨_, Settles.inside rfl (flushed (withLength.print t text) ?_)⟩
      simp [withLength, withVersion, withRole, Shared.print, Shared.flush, initialDocument,
        OutStream.send, OutStream.buffer]
  obtain ⟨m, written⟩ := written
  have printed : (serverThreads clients).Settles (m + 3)
      (.within points t (.printingRole text) sh) settled :=
    .inside rfl (.inside rfl (.inside rfl written))
  refine ⟨m + 4, .inside rfl ?_⟩
  simp only [run_serverCoreFlattenDoc]
  exact printed

/-- The loop of a broadcast writes and flushes as a whole broadcast does. -/
theorem settles_broadcast (payload : Text) (conns : List ClientConn) (sh : Shared) :
    ∃ m, (serverThreads clients).Settles m (.within points t (.putting payload conns) sh)
      ⟨{ sh with streams := (Id.run (broadcastTo payload conns sh.streams)).2 },
        Function.update points t .serving, none⟩ := by
  induction conns generalizing sh with
  | nil => exact ⟨_, .inside rfl (.unlock rfl)⟩
  | cons cur rest ih =>
      obtain ⟨m, later⟩ := ih ((sh.print cur.outStream payload).flush cur.outStream)
      exact ⟨m + 2, .inside rfl (.inside rfl later)⟩

/-- The section for a line. -/
theorem settles_execute {sh : Shared} (coherent : sh.server.Coherent)
    (settled : sh.server.log = []) (distinct : (sh.registry.head.map (·.outStream)).Nodup)
    {line : Text} (short : line.length < commandLineSize) :
    ∃ m, (serverThreads clients).Settles m (.within points t (.submitting line) sh)
      ⟨{ sh with
          server := sh.server.processed (clients t).username.val (clients t).role line
          streams := fun out =>
            if out ∈ sh.registry.head.map (·.outStream) then
              (sh.streams out).send (linePayload (clients t) sh.server line)
            else sh.streams out },
        Function.update points t .serving, none⟩ := by
  have sent := run_broadcastTo (linePayload (clients t) sh.server line) sh.registry.head sh.streams
    distinct
  obtain ⟨m, broadcast⟩ := settles_broadcast clients points t
    (linePayload (clients t) sh.server line) sh.registry.head
    { sh with server := sh.server.processed (clients t).username.val (clients t).role line }
  rw [sent] at broadcast
  refine ⟨m + 3, .inside rfl (.inside rfl ?_)⟩
  have printable := (clients t).printable short (sh.server.plan (clients t).role line).1
  simp only [coherent.run_submit, commitStatement,
    coherent.run_commit_submitted _ _ _ settled printable]
  exact .inside rfl broadcast

/-- The first section, for a client whose pid is not registered and for one whose pid
is. -/
theorem settles_connect (sh : Shared) :
    let sent := Function.update sh.streams t ((sh.streams t).send
      (initialDocument (clients t).role sh.server.core.currentVersion
        sh.server.store.committedText))
    let paths := buildFifoPaths (clients t).pid
    (clientRegistryFind sh.registry (clients t).pid = none ∧
      ∃ m, (serverThreads clients).Settles m (.within points t .flattening sh)
        ⟨{ sh with
            registry := ⟨⟨(clients t).pid, (clients t).username.val, (clients t).role, paths.1,
              paths.2, t⟩ :: sh.registry.head, sh.registry.count + 1⟩
            streams := sent },
          Function.update points t .serving, none⟩) ∨
      (clientRegistryFind sh.registry (clients t).pid ≠ none ∧
        ∃ m, (serverThreads clients).Settles m (.within points t .flattening sh)
          ⟨{ sh with streams := sent }, Function.update points t .closing, none⟩) := by
  intro sent paths
  cases found : clientRegistryFind sh.registry (clients t).pid with
  | none =>
      refine .inl ⟨rfl, settles_document clients points t (n := 2) (.inside rfl ?_)⟩
      simp only [registerStatement, run_clientRegistryAdd, found, Option.isSome_none,
        Bool.false_eq_true, if_false, if_true]
      exact .unlock rfl
  | some conn =>
      refine .inr ⟨Option.some_ne_none conn,
        settles_document clients points t (n := 2) (.inside rfl ?_)⟩
      simp only [registerStatement, run_clientRegistryAdd, found, Option.isSome_some,
        Bool.false_eq_true, if_false, if_true]
      exact .unlock rfl

end

/-! ## The abstraction -/

/-- A state outside the sections and the system it stands for, in which the stream of
a refused client is closed already. -/
structure Shows (s : LockedState ThreadId Point Shared) (sys : System) : Prop where
  server_eq : sys.server = s.shared.server
  registry_eq : sys.registry = s.shared.registry
  stream_eq : ∀ t, sys.streams t =
    if s.points t = .closing then fclose s.shared.streams t t else s.shared.streams t
  phase_eq : ∀ t, (s.points t).phase = some (sys.threads t).phase
  inbox_eq : ∀ t,
    s.shared.inboxes t = ⟨(sys.threads t).incoming, (sys.threads t).hungUp⟩

namespace Shows

variable {clients : ThreadId → ClientInfo} {s : LockedState ThreadId Point Shared} {sys : System}

theorem start (addr : DocAddr) (others : OtherOps addr) :
    Shows (statementsStart addr others) (System.start addr others) := by
  constructor
  · rfl
  · rfl
  · intro t
    rfl
  · intro t
    rfl
  · intro t
    rfl

/-- A step that changes one thread, its stream and what the threads share. -/
theorem update (shows_ : Shows s sys) {t : ThreadId} {point : Point} {sh : Shared}
    {holder : Option ThreadId} {sys' : System} (thread : ClientThread)
    (server_eq : sys'.server = sh.server) (registry_eq : sys'.registry = sh.registry)
    (stream_eq : sys'.streams t =
      if point = .closing then fclose sh.streams t t else sh.streams t)
    (others : ∀ other, other ≠ t →
      (sh.streams other = s.shared.streams other ∧ sys'.streams other = sys.streams other) ∨
        (s.points other ≠ .closing ∧ sys'.streams other = sh.streams other))
    (phase_eq : point.phase = some thread.phase)
    (threads_eq : sys'.threads = Function.update sys.threads t thread)
    (inboxes_eq : sh.inboxes =
      Function.update s.shared.inboxes t ⟨thread.incoming, thread.hungUp⟩) :
    Shows ⟨sh, Function.update s.points t point, holder⟩ sys' := by
  constructor
  · exact server_eq
  · exact registry_eq
  · intro other
    by_cases own : other = t
    · subst own
      simpa using stream_eq
    · simp only [Function.update_of_ne own]
      rcases others other own with ⟨same, same'⟩ | ⟨unclosed, same⟩
      · rw [same', shows_.stream_eq other]
        simp only [fclose, Function.update_self, same]
      · rw [if_neg unclosed, same]
  · intro other
    rw [threads_eq]
    by_cases own : other = t
    · subst own
      simpa using phase_eq
    · simpa [own] using shows_.phase_eq other
  · intro other
    rw [threads_eq, inboxes_eq]
    by_cases own : other = t
    · subst own
      simp
    · simpa [own] using shows_.inbox_eq other

/-- The same for a section, which leaves the inboxes alone. -/
theorem setPhase (shows_ : Shows s sys) {t : ThreadId} {point : Point} {sh : Shared}
    {holder : Option ThreadId} {sys' : System} {phase : Phase}
    (server_eq : sys'.server = sh.server) (registry_eq : sys'.registry = sh.registry)
    (stream_eq : sys'.streams t =
      if point = .closing then fclose sh.streams t t else sh.streams t)
    (others : ∀ other, other ≠ t →
      (sh.streams other = s.shared.streams other ∧ sys'.streams other = sys.streams other) ∨
        (s.points other ≠ .closing ∧ sys'.streams other = sh.streams other))
    (phase_eq : point.phase = some phase) (threads_eq : sys'.threads = sys.threads)
    (inboxes_eq : sh.inboxes = s.shared.inboxes) :
    Shows ⟨sh, Function.update s.points t point, holder⟩ (sys'.setPhase t phase) := by
  refine shows_.update { sys'.threads t with phase } server_eq registry_eq stream_eq others
    phase_eq ?_ ?_
  · rw [System.setPhase, System.setThread, threads_eq]
  · rw [inboxes_eq, threads_eq, ← shows_.inbox_eq t, Function.update_eq_self]

/-- What clients do. -/
theorem world (shows_ : Shows s sys) {action : Action} (actor : action.actor = none) :
    Shows ((serverThreads clients).step s action) (systemStep clients sys action).1 := by
  have moved (t : ThreadId) (thread : ClientThread) (phase : thread.phase = (sys.threads t).phase) :
      Shows
        ⟨{ s.shared with
            inboxes := Function.update s.shared.inboxes t ⟨thread.incoming, thread.hungUp⟩ },
          s.points, s.holder⟩
        (sys.setThread t thread) := by
    have next : Shows
        ⟨{ s.shared with
            inboxes := Function.update s.shared.inboxes t ⟨thread.incoming, thread.hungUp⟩ },
          Function.update s.points t (s.points t), s.holder⟩
        (sys.setThread t thread) :=
      shows_.update thread shows_.server_eq shows_.registry_eq (shows_.stream_eq t)
        (fun _ _ => .inl ⟨rfl, rfl⟩) (phase ▸ shows_.phase_eq t) rfl rfl
    rwa [Function.update_eq_self] at next
  rw [step_world actor]
  cases action with
  | step t => cases actor
  | send t bytes =>
      have next := moved t
        { sys.threads t with incoming := (sys.threads t).incoming ++ bytes } rfl
      simpa [systemStep, serverThreads, Action.world, shows_.inbox_eq t] using next
  | hangUp t =>
      have next := moved t { sys.threads t with hungUp := true } rfl
      simpa [systemStep, serverThreads, Action.world, shows_.inbox_eq t] using next

/-- A read of the command loop. -/
theorem read (shows_ : Shows s sys) {t : ThreadId} (serving : s.points t = .serving) :
    Shows ⟨(readStatement t s.shared).2,
      Function.update s.points t (readStatement t s.shared).1, s.holder⟩ (readCommand sys t).1 := by
  have inbox := shows_.inbox_eq t
  have stream := shows_.stream_eq t
  rw [serving, if_neg (by decide)] at stream
  have taken (incoming : Text) (point : Point) (phase : Phase) (apart : point ≠ .closing)
      (phase_eq : point.phase = some phase) :
      Shows
        ⟨{ s.shared with
            inboxes := Function.update s.shared.inboxes t { s.shared.inboxes t with incoming } },
          Function.update s.points t point, s.holder⟩
        (sys.setThread t { sys.threads t with incoming, phase }) := by
    refine shows_.update { sys.threads t with incoming, phase } shows_.server_eq
      shows_.registry_eq ?_ (fun _ _ => .inl ⟨rfl, rfl⟩) phase_eq rfl ?_
    · rw [if_neg apart]
      exact stream
    · rw [inbox]
  match found : fgets commandLineSize (sys.threads t).hungUp (sys.threads t).incoming with
  | none =>
      have same : Function.update s.points t .serving = s.points := by
        rw [← serving, Function.update_eq_self]
      simpa [readStatement, readCommand, inbox, found, same] using shows_
  | some (none, incoming) =>
      have next := taken incoming .leaving .leaving (by decide) rfl
      simpa [readStatement, readCommand, inbox, found] using next
  | some (some buffer, incoming) =>
      by_cases quit : isQuit (untilNul buffer) = true
      · have next := taken incoming .leaving .leaving (by decide) rfl
        simpa [readStatement, readCommand, inbox, found, quit] using next
      · have next := taken incoming (.holding (untilNul buffer)) (.holding (untilNul buffer))
          (by rintro ⟨⟩) rfl
        simpa [readStatement, readCommand, inbox, found, quit] using next

/-- Threads that close their stream by themselves are not registered. -/
theorem not_closing (orderly : Orderly clients s) {out : StreamId}
    (member : out ∈ s.shared.registry.head.map (·.outStream)) : s.points out ≠ .closing := by
  obtain ⟨conn, inside, rfl⟩ := List.mem_map.mp member
  intro closing
  have registered := orderly.registered conn inside
  rw [closing] at registered
  cases registered

section

variable {ledger : Ledger} {t : ThreadId} {n : Nat} {settled : LockedState ThreadId Point Shared}

theorem connect (shows_ : Shows s sys) (connecting : s.points t = .connecting)
    (free : s.holder = none)
    (settles : (serverThreads clients).Settles n ((serverThreads clients).exec s t) settled) :
    Shows settled (Id.run (connectSection clients sys t)).1 := by
  have found : (serverThreads clients).current s t = .lock .flattening := by
    simp [current, serverThreads, connecting, statement]
  have stream := shows_.stream_eq t
  rw [connecting, if_neg (by decide)] at stream
  rw [exec_enter found free] at settles
  rcases settles_connect clients s.points t s.shared with
    ⟨absent, m, joined⟩ | ⟨present, m, refused⟩
  · rw [joined.unique settles]
    rw [← shows_.registry_eq] at absent
    simp only [connectSection, Id.run_bind, run_sendInitialDocument, Bool.not_true,
      Bool.false_eq_true, if_false, run_clientRegistryAdd, absent, Option.isSome_none]
    refine shows_.setPhase shows_.server_eq ?_ ?_ ?_ rfl rfl rfl
    · rw [shows_.registry_eq]
    · simp [stream, shows_.server_eq]
    · intro other apart
      left
      simp [apart]
  · rw [refused.unique settles]
    rw [← shows_.registry_eq] at present
    obtain ⟨conn, present⟩ := Option.ne_none_iff_exists'.mp present
    simp only [connectSection, Id.run_bind, run_sendInitialDocument, Bool.not_true,
      Bool.false_eq_true, if_false, run_clientRegistryAdd, present, Option.isSome_some, if_true,
      Bool.not_false]
    refine shows_.setPhase shows_.server_eq shows_.registry_eq ?_ ?_ rfl rfl rfl
    · simp [fclose, stream, shows_.server_eq]
    · intro other apart
      left
      simp [fclose, apart]

theorem execute (shows_ : Shows s sys) (delivered : Delivered clients ledger sys)
    (orderly : Orderly clients s) {line : Text} (holding : s.points t = .holding line)
    (free : s.holder = none)
    (settles : (serverThreads clients).Settles n ((serverThreads clients).exec s t) settled) :
    Shows settled (Id.run (executeSection clients sys t line)).1 := by
  have found : (serverThreads clients).current s t = .lock (.submitting line) := by
    simp [current, serverThreads, holding, statement]
  have registered_eq : sys.registered = s.shared.registry.head.map (·.outStream) := by
    rw [System.registered, shows_.registry_eq]
  have coherent := delivered.coherent
  have log_nil := delivered.settled
  have distinct := delivered.owned.registered_nodup
  have stream := shows_.stream_eq t
  have phase := shows_.phase_eq t
  rw [holding] at phase
  have short := (delivered.tracked t).short line
    (by rw [← Option.some.inj phase]; exact List.mem_singleton_self _)
  rw [holding, if_neg (by rintro ⟨⟩)] at stream
  rw [run_executeSection clients coherent log_nil distinct t short]
  rw [shows_.server_eq] at coherent log_nil
  rw [registered_eq] at distinct
  rw [exec_enter found free] at settles
  obtain ⟨m, executed⟩ := settles_execute clients s.points t
    coherent log_nil distinct short
  rw [executed.unique settles]
  refine shows_.setPhase ?_ shows_.registry_eq ?_ ?_ rfl rfl rfl
  · rw [System.execute, shows_.server_eq]
  · rw [if_neg (by decide)]
    simp only [System.execute, registered_eq, stream, shows_.server_eq]
  · intro other _
    by_cases member : other ∈ s.shared.registry.head.map (·.outStream)
    · have unclosed := not_closing orderly member
      have same := shows_.stream_eq other
      rw [if_neg unclosed] at same
      right
      refine ⟨unclosed, ?_⟩
      simp only [System.execute, registered_eq, same, shows_.server_eq]
    · left
      simp only [System.execute, registered_eq, if_neg member, and_self]

theorem leave (shows_ : Shows s sys) (delivered : Delivered clients ledger sys)
    (orderly : Orderly clients s) (leaving : s.points t = .leaving) (free : s.holder = none)
    (settles : (serverThreads clients).Settles n ((serverThreads clients).exec s t) settled) :
    Shows settled (leaveSection clients sys t).1 := by
  have found : (serverThreads clients).current s t = .lock .removing := by
    simp [current, serverThreads, leaving, statement]
  have phase : (sys.threads t).phase = .leaving := by
    have same := shows_.phase_eq t
    rw [leaving] at same
    exact (Option.some.inj same).symm
  have member := delivered.registered (congrArg Phase.connected phase)
  have stream := shows_.stream_eq t
  rw [leaving, if_neg (by decide)] at stream
  rw [delivered.owned.leaveSection_eq member]
  obtain ⟨conn, inside, own⟩ := List.mem_map.mp member
  rw [shows_.registry_eq] at inside
  have pid_eq := orderly.owned.pid_eq conn inside
  rw [own] at pid_eq
  have removed : (serverThreads clients).Settles 2 (.within s.points t .removing s.shared)
      ⟨{ s.shared with
          registry := ⟨s.shared.registry.head.filter (·.pid != (clients t).pid),
            sizeSub s.shared.registry.count 1⟩
          streams := fclose s.shared.streams t },
        Function.update s.points t .finished, none⟩ := by
    refine .inside rfl ?_
    simp only [← pid_eq, clientRegistryRemove, unlinkConn_eq orderly.owned.distinct inside, own]
    exact .unlock rfl
  rw [exec_enter found free] at settles
  rw [removed.unique settles]
  refine shows_.setPhase shows_.server_eq ?_ ?_ ?_ rfl rfl rfl
  · rw [System.leave, shows_.registry_eq]
  · simp [System.leave, fclose, stream]
  · intro other apart
    left
    simp [System.leave, fclose, apart]

/-- Closing the stream of a refused client has been shown already. -/
theorem close (shows_ : Shows s sys) (closing : s.points t = .closing) :
    Shows ((serverThreads clients).exec s t) sys := by
  have found : (serverThreads clients).current s t =
      .outside fun sh => (.finished, { sh with streams := fclose sh.streams t }) := by
    simp [current, serverThreads, closing, statement]
  have phase := shows_.phase_eq t
  have stream := shows_.stream_eq t
  rw [closing] at phase
  rw [closing, if_pos rfl] at stream
  rw [exec_outside found]
  refine shows_.update (sys.threads t) shows_.server_eq shows_.registry_eq ?_ ?_ phase
    (Function.update_eq_self ..).symm ?_
  · rw [if_neg (by rintro ⟨⟩), stream]
  · intro other apart
    left
    simp [fclose, apart]
  · rw [← shows_.inbox_eq t, Function.update_eq_self]

/-- A section run to its end, or a step outside the sections, is one step of the
system. -/
theorem step (shows_ : Shows s sys) (delivered : Delivered clients ledger sys)
    (orderly : Orderly clients s) (free : s.holder = none) (action : Action)
    (settles : (serverThreads clients).Settles n ((serverThreads clients).step s action) settled) :
    Shows settled (systemStep clients sys action).1 := by
  cases action with
  | send t bytes =>
      have actor : (serverThreads clients).actor (.send t bytes) = none := rfl
      rw [settles.eq_of_free (by rw [step_world actor, free])]
      exact shows_.world actor
  | hangUp t =>
      have actor : (serverThreads clients).actor (.hangUp t) = none := rfl
      rw [settles.eq_of_free (by rw [step_world actor, free])]
      exact shows_.world actor
  | step t =>
      have actor : (serverThreads clients).actor (.step t) = some t := rfl
      have phase := shows_.phase_eq t
      rw [step_actor actor] at settles
      rw [systemStep, threadStep]
      cases point : s.points t with
      | connecting =>
          rw [point] at phase
          rw [← Option.some.inj phase]
          exact shows_.connect point free settles
      | serving =>
          have found : (serverThreads clients).current s t = .outside (readStatement t) := by
            simp [current, serverThreads, point, statement]
          rw [point] at phase
          rw [exec_outside found] at settles
          rw [← Option.some.inj phase, settles.eq_of_free free]
          exact shows_.read point
      | holding line =>
          rw [point] at phase
          rw [← Option.some.inj phase]
          exact shows_.execute delivered orderly point free settles
      | leaving =>
          rw [point] at phase
          rw [← Option.some.inj phase]
          exact shows_.leave delivered orderly point free settles
      | closing =>
          have closed : Shows ((serverThreads clients).exec s t) sys := shows_.close point
          have still : ((serverThreads clients).exec s t).holder = none := by
            simp [LockedProgram.exec, current, serverThreads, point, statement, free]
          rw [point] at phase
          rw [← Option.some.inj phase, settles.eq_of_free still]
          exact closed
      | finished =>
          have found : (serverThreads clients).current s t =
              .outside fun sh => (.finished, sh) := by
            simp [current, serverThreads, point, statement]
          have same : (serverThreads clients).exec s t = s := by
            rw [exec_outside found, ← point, Function.update_eq_self]
          rw [point] at phase
          rw [same] at settles
          rw [← Option.some.inj phase, settles.eq_of_free free]
          exact shows_
      | _ =>
          rw [point] at phase
          cases phase

end

end Shows

/-! ## What clients see on the way -/

theorem written_update_buffer (streams : Streams) (out u : StreamId) (text : Text) :
    (Function.update streams out ((streams out).buffer text) u).written = (streams u).written := by
  by_cases here : u = out
  · subst here
    simp [OutStream.buffer]
  · simp [here]

theorem written_update_drain (streams : Streams) (out u : StreamId) (closes : Nat) :
    (streams u).written <+:
      (Function.update streams out { (streams out).drain with closes } u).written := by
  by_cases here : u = out
  · subst here
    simp [OutStream.drain]
  · simp [here]

theorem written_fclose (streams : Streams) (out u : StreamId) :
    (streams u).written <+: (fclose streams out u).written :=
  written_update_drain streams out u _

/-- What has left a stream is not taken back. -/
theorem written_exec {clients : ThreadId → ClientInfo} {s : LockedState ThreadId Point Shared}
    (orderly : Orderly clients s) (t : ThreadId) (u : StreamId) :
    (s.shared.streams u).written <+:
      (((serverThreads clients).exec s t).shared.streams u).written := by
  have found : (serverThreads clients).current s t = statement (clients t) t (s.points t) := rfl
  cases point : s.points t with
  | connecting | holding line | leaving =>
      rw [point] at found
      by_cases free : s.holder = none
      · rw [exec_lock found free]
      · rw [exec_blocked found free]
  | connected | refused | executed | left =>
      rw [point] at found
      rw [exec_unlock found]
  | flattening | submitting line | broadcasting payload =>
      rw [point] at found
      rw [exec_inside found]
  | committing =>
      rw [point] at found
      rw [exec_inside found]
      exact List.prefix_rfl
  | printingRole docText | printingVersion docText | printingLength docText
  | writingText docText =>
      rw [point] at found
      rw [exec_inside found]
      simp only [Shared.print, run_fputs, written_update_buffer]
      exact List.prefix_rfl
  | flushingDocument =>
      rw [point] at found
      rw [exec_inside found]
      exact written_update_drain s.shared.streams t u _
  | registering =>
      rw [point] at found
      rw [exec_inside found]
      simp only [registerStatement, run_clientRegistryAdd]
      split <;> exact List.prefix_rfl
  | putting payload conns =>
      rw [point] at found
      rw [exec_inside found]
      cases conns with
      | nil => exact List.prefix_rfl
      | cons cur rest =>
          simp only [putStatement, run_fputs, written_update_buffer]
          exact List.prefix_rfl
  | flushing payload out rest =>
      rw [point] at found
      rw [exec_inside found]
      exact written_update_drain s.shared.streams out u _
  | removing =>
      rw [point] at found
      rw [exec_inside found]
      rcases (clientRegistryRemove_eq s.shared.streams (clients t).pid
        orderly.owned.distinct).2 with same | ⟨out, -, closed⟩
      · simp only [same]
        exact List.prefix_rfl
      · simp only [closed]
        exact written_fclose s.shared.streams out u
  | closing =>
      rw [point] at found
      rw [exec_outside found]
      exact written_fclose s.shared.streams t u
  | serving =>
      rw [point] at found
      rw [exec_outside found, readStatement_congr t (rfl : s.shared.inboxes = s.shared.inboxes)]
  | finished =>
      rw [point] at found
      rw [exec_outside found]

/-! ## Runs -/

theorem exclusive_start (clients : ThreadId → ClientInfo) (addr : DocAddr)
    (others : OtherOps addr) : (serverThreads clients).Exclusive (statementsStart addr others) := by
  intro t
  constructor
  · rintro ⟨⟩
  · rintro ⟨⟩

/-- A run of whole sections is a run of the system. -/
theorem shows_serialRun {clients : ThreadId → ClientInfo} {addr : DocAddr}
    {others : OtherOps addr} {actions : List Action} {s : LockedState ThreadId Point Shared}
    (serial : (serverThreads clients).SerialRun (statementsStart addr others) actions s) :
    Shows s (systemReached clients addr others actions) := by
  induction serial with
  | nil => exact Shows.start addr others
  | @snoc actions before settled n action earlier settles shows_ =>
      have orderly := (earlier.invariant (commutes clients) (bracketed clients)
        (orderly_start clients addr others) (exclusive_start clients addr others)).1
      have next := shows_.step (delivered_reached clients addr others actions) orderly
        (earlier.free rfl) action settles
      rwa [systemReached, run_append]

theorem statements_serializable (clients : ThreadId → ClientInfo) (addr : DocAddr)
    (others : OtherOps addr) (schedule : List Action) :
    let s := statementsReached clients addr others schedule
    Orderly clients s ∧ (serverThreads clients).Exclusive s ∧ ∃ settled n,
      Shows settled (systemReached clients addr others (sections clients addr others schedule)) ∧
        (serverThreads clients).Settles n s settled := by
  intro s
  obtain ⟨orderly, exclusive, settled, n, serial, settles⟩ :=
    serializable (commutes clients) (bounded clients) (bracketed clients)
      (orderly_start clients addr others) (exclusive_start clients addr others) rfl schedule
  exact ⟨orderly, exclusive, settled, n, shows_serialRun serial, settles⟩

/-- A thread on its way to the end of its section takes nothing back, and sends nothing
that the system does not send. -/
theorem written_settled {clients : ThreadId → ClientInfo}
    {s settled : LockedState ThreadId Point Shared} {sys : System} {n : Nat}
    (orderly : Orderly clients s) (exclusive : (serverThreads clients).Exclusive s)
    (settles : (serverThreads clients).Settles n s settled) (shows_ : Shows settled sys)
    (u : StreamId) : (s.shared.streams u).written <+: (sys.streams u).written := by
  have grown := (settles.invariant
    (P := fun later => (Orderly clients later ∧ (serverThreads clients).Exclusive later) ∧
      (s.shared.streams u).written <+: (later.shared.streams u).written)
    (by
      rintro later t - ⟨⟨orderly, exclusive⟩, grown⟩
      exact ⟨⟨orderly.exec exclusive t, exclusive.exec (bracketed clients) t⟩,
        grown.trans (written_exec orderly t u)⟩)
    ⟨⟨orderly, exclusive⟩, List.prefix_rfl⟩).2
  refine grown.trans ?_
  rw [shows_.stream_eq u]
  split
  · exact written_fclose _ u u
  · exact List.prefix_rfl

/-- For every schedule of single statements there is a run of whole sections, with the
same doings of the clients, that the threads are at or on their way to: at most one
thread is in a section; when none is, the state is that of the system; when one is,
its own steps lead there; and no client has been sent anything that the system does not
send it. -/
theorem sections_are_atomic (clients : ThreadId → ClientInfo) (addr : DocAddr)
    (others : OtherOps addr) (schedule : List Action) :
    let s := statementsReached clients addr others schedule
    let actions := sections clients addr others schedule
    let sys := systemReached clients addr others actions
    (∀ t, ((serverThreads clients).current s t).guarded = true ↔ s.holder = some t) ∧
      actions.Sublist schedule ∧
      actions.filter (·.actor.isNone) = schedule.filter (·.actor.isNone) ∧
      (s.holder = none → Shows s sys) ∧
      (∃ n settled, (serverThreads clients).Settles n s settled ∧ Shows settled sys) ∧
      ∀ u, (s.shared.streams u).written <+: (sys.streams u).written := by
  intro s actions sys
  obtain ⟨orderly, exclusive, settled, n, shows_, settles⟩ :=
    statements_serializable clients addr others schedule
  refine ⟨exclusive, serialized_sublist _ _, filter_serialized (serverThreads clients) _ _, ?_,
    ⟨n, settled, settles, shows_⟩, written_settled orderly exclusive settles shows_⟩
  intro free
  have same : settled = s := settles.eq_of_free free
  rwa [same] at shows_

/-- A thread that holds the mutex gives it back within two steps of its own for each
registered client and eight more, whatever the other threads and the clients do in
between. -/
theorem mutex_is_released (clients : ThreadId → ClientInfo) (addr : DocAddr)
    (others : OtherOps addr) (schedule later : List Action) (t : ThreadId)
    (held : (statementsReached clients addr others schedule).holder = some t)
    (enough :
      2 * (statementsReached clients addr others schedule).shared.registry.head.length + 8 ≤
        later.countP (·.actor = some t)) :
    ∃ first, first <+: later ∧
      (statementsReached clients addr others (schedule ++ first)).holder = none := by
  obtain ⟨orderly, exclusive, -⟩ := statements_serializable clients addr others schedule
  have short := sectionRank_le clients orderly
  have within : sectionRank (statementsReached clients addr others schedule) <
      later.countP ((serverThreads clients).actor · = some t) :=
    Nat.lt_of_lt_of_le (by omega) enough
  obtain ⟨first, isPrefix, free⟩ := (bounded clients).released (commutes clients)
    (bracketed clients) orderly exclusive held within
  refine ⟨first, isPrefix, ?_⟩
  rw [statementsReached, List.foldl_append]
  exact free

/-- Two clients of one name. -/
def twoClients : ThreadId → ClientInfo :=
  fun t => ⟨10 + t, Username.ann, .write⟩

/-- Both clients are registered, and the payload of a line of the first one is on its way
to the second one when that one's thread wants to go on. -/
theorem mutex_is_released_broadcasting :
    let schedule : List Action :=
      List.replicate 9 (.step 0) ++ List.replicate 9 (.step 1) ++
        [.send 0 (ascii "INSERT 0 hi\n")] ++ List.replicate 6 (.step 0)
    let later : List Action := (List.replicate 12 [.step 1, .step 0]).flatten
    ((statementsReached twoClients 1 ⟨[], rfl⟩ schedule).points 0).due = [1, 0] ∧
      ∃ first, first <+: later ∧
        (statementsReached twoClients 1 ⟨[], rfl⟩ (schedule ++ first)).holder = none :=
  ⟨by decide +kernel,
    mutex_is_released twoClients 1 ⟨[], rfl⟩ _ _ 0 (by decide +kernel) (by decide +kernel)⟩

end CollabMarkdown.Process
