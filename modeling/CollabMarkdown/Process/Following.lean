import CollabMarkdown.Process.CommandLines
import Mathlib.Data.List.Induction

/-!
# Reading a stream that grows

What a thread takes from the stream of its client, step by step, whatever the client sends
later.  A thread that keeps stepping comes to rest, with everything read that can be.
-/

namespace CollabMarkdown.Process

open CollabMarkdown.CString
open CollabMarkdown.Command
open CollabMarkdown.Core
open CollabMarkdown.Markdown
open CollabMarkdown.Transition

/-! ## The loop on a stream so far -/

/-- The lines that the loop submits from a stream so far, and whether it has met one that
ends the session.  As long as the stream is open, a line that may still grow is not read. -/
def readyLoop (closed : Bool) (stream : Text) : List Text × Bool :=
  match _read : fgets commandLineSize closed stream with
  | none | some (none, _) => ([], false)
  | some (some buffer, rest) =>
      if isQuit (untilNul buffer) then
        ([], true)
      else
        (untilNul buffer :: (readyLoop closed rest).1, (readyLoop closed rest).2)
termination_by stream.length
decreasing_by all_goals exact fgets_shorter _read

/-- The client has closed its end. -/
def hasClosed (t : ThreadId) (actions : List Action) : Bool :=
  actions.any (· = .hangUp t)

section

variable {closed : Bool} {stream buffer rest : Text}

theorem readyLoop_of_read
    (read : fgets commandLineSize closed stream = some (some buffer, rest)) :
    readyLoop closed stream =
      if isQuit (untilNul buffer) then ([], true)
      else (untilNul buffer :: (readyLoop closed rest).1, (readyLoop closed rest).2) := by
  rw [readyLoop, read]

/-- What arrives later leaves the lines so far, and comes too late behind the end of the
session. -/
theorem readyLoop_append {closed' : Bool} (more : Text) (last : closed = true → more = [])
    (closes : closed = true → closed' = true) :
    (readyLoop closed stream).1 <+: (readyLoop closed' (stream ++ more)).1 ∧
      ((readyLoop closed stream).2 = true →
        readyLoop closed' (stream ++ more) = readyLoop closed stream) := by
  induction stream using readyLoop.induct closed with
  | case1 stream blocked =>
      rw [readyLoop, blocked]
      exact ⟨List.nil_prefix, fun quits => by contradiction⟩
  | case2 stream rest ended =>
      rw [readyLoop, ended]
      exact ⟨List.nil_prefix, fun quits => by contradiction⟩
  | case3 stream buffer rest read quit =>
      rw [readyLoop_of_read read, readyLoop_of_read (fgets_append more read last closes),
        if_pos quit, if_pos quit]
      exact ⟨List.prefix_rfl, fun _ => rfl⟩
  | case4 stream buffer rest read goesOn ih =>
      obtain ⟨grown, same⟩ := ih
      rw [readyLoop_of_read read, readyLoop_of_read (fgets_append more read last closes),
        if_neg goesOn, if_neg goesOn]
      exact ⟨(List.prefix_cons_inj _).mpr grown, fun quits => by rw [same quits]⟩

/-- At the end of the stream it is the command loop. -/
theorem readyLoop_true (stream : Text) : readyLoop true stream = commandLoop stream := by
  induction stream using commandLoop.induct with
  | case1 stream blocked => rw [readyLoop, commandLoop, blocked]
  | case2 stream rest ended => rw [readyLoop, commandLoop, ended]
  | case3 stream buffer rest read quit =>
      rw [readyLoop_of_read read, commandLoop_of_read read, if_pos quit, if_pos quit]
  | case4 stream buffer rest read goesOn ih =>
      rw [readyLoop_of_read read, commandLoop_of_read read, if_neg goesOn, if_neg goesOn, ih]

end

/-! ## What a step does to a thread -/

/-- A step of a thread's own, with the lines it has read so far. -/
inductive LoopStep (thread : ClientThread) (reads : List Text) :
    ClientThread → List Text → Prop
  | connect {phase : Phase} (connecting : thread.phase = .connecting)
      (entered : phase = .serving ∨ phase = .finished) :
      LoopStep thread reads { thread with phase } reads
  | wait (serving : thread.phase = .serving)
      (blocked : fgets commandLineSize thread.hungUp thread.incoming = none) :
      LoopStep thread reads thread reads
  | stop {incoming : Text} (serving : thread.phase = .serving) :
      LoopStep thread reads { thread with incoming, phase := .leaving } reads
  | take {buffer incoming : Text} (serving : thread.phase = .serving)
      (read : fgets commandLineSize thread.hungUp thread.incoming = some (some buffer, incoming))
      (command : ¬isQuit (untilNul buffer) = true) :
      LoopStep thread reads { thread with incoming, phase := .holding (untilNul buffer) }
        (reads ++ [untilNul buffer])
  | execute {line : Text} (holding : thread.phase = .holding line) :
      LoopStep thread reads { thread with phase := .serving } reads
  | leave (leaving : thread.phase = .leaving) :
      LoopStep thread reads { thread with phase := .finished } reads
  | rest (finished : thread.phase = .finished) : LoopStep thread reads thread reads

/-- A bound on the steps a thread can take on what has arrived. -/
def ClientThread.workLeft (thread : ClientThread) : Nat :=
  match thread.phase with
  | .connecting | .holding _ => 2 * thread.incoming.length + 3
  | .serving => 2 * thread.incoming.length + 2
  | .leaving => 1
  | .finished => 0

/-- Each step leaves less to do, unless the thread waits for its client or is through. -/
theorem LoopStep.workLeft_lt {thread thread' : ClientThread} {reads reads' : List Text}
    (moved : LoopStep thread reads thread' reads') :
    thread'.workLeft < thread.workLeft ∨
      (thread.phase = .serving ∧ fgets commandLineSize thread.hungUp thread.incoming = none ∨
        thread.phase = .finished) := by
  cases moved with
  | connect connecting entered =>
      left
      rcases entered with rfl | rfl <;> simp [ClientThread.workLeft, connecting]
  | wait serving blocked => exact .inr (.inl ⟨serving, blocked⟩)
  | stop serving => simp [ClientThread.workLeft, serving]
  | take serving read command =>
      left
      have shorter := fgets_shorter read
      simp only [ClientThread.workLeft, serving]
      omega
  | execute holding => simp [ClientThread.workLeft, holding]
  | leave leaving => simp [ClientThread.workLeft, leaving]
  | rest finished => exact .inr (.inr finished)

/-- What a thread may still read gets shorter from the front. -/
theorem LoopStep.reading_suffix {thread thread' : ClientThread} {reads reads' : List Text}
    (moved : LoopStep thread reads thread' reads') (reading : thread'.phase.reading = true) :
    thread.phase.reading = true ∧ thread'.incoming <:+ thread.incoming := by
  cases moved with
  | connect connecting entered => exact ⟨by rw [connecting]; rfl, List.suffix_rfl⟩
  | wait serving blocked => exact ⟨reading, List.suffix_rfl⟩
  | stop serving => contradiction
  | take serving read command =>
      exact ⟨by rw [serving]; rfl, ⟨_, (fgets_consumes read).2.symm⟩⟩
  | execute holding => exact ⟨by rw [holding]; rfl, List.suffix_rfl⟩
  | leave leaving => contradiction
  | rest finished => exact ⟨reading, List.suffix_rfl⟩

section

variable {clients : ThreadId → ClientInfo} {ledger : Ledger} {sys : System} {t : ThreadId}

theorem loopStep_readCommand (serving : (sys.threads t).phase = .serving) :
    LoopStep (sys.threads t) (ledger.reads t) ((readCommand sys t).1.threads t)
      ((ledger.record (readCommand sys t).2).reads t) := by
  match read : fgets commandLineSize (sys.threads t).hungUp (sys.threads t).incoming with
  | none => simpa [readCommand, read, Ledger.record] using LoopStep.wait serving read
  | some (none, incoming) =>
      simpa [readCommand, read, Ledger.record, System.setThread] using LoopStep.stop serving
  | some (some buffer, incoming) =>
      by_cases quits : isQuit (untilNul buffer) = true
      · simpa [readCommand, read, quits, Ledger.record, System.setThread] using
          LoopStep.stop serving
      · simpa [readCommand, read, quits, Ledger.record, System.setThread] using
          LoopStep.take serving read quits

theorem loopStep_step (delivered : Delivered clients ledger sys) (t : ThreadId) :
    LoopStep (sys.threads t) (ledger.reads t) ((systemStep clients sys (.step t)).1.threads t)
      ((ledger.record (systemStep clients sys (.step t)).2).reads t) := by
  have setPhase (sys' : System) (same : sys'.threads = sys.threads) {phase : Phase}
      (step : LoopStep (sys.threads t) (ledger.reads t) { sys.threads t with phase }
        (ledger.reads t)) :
      LoopStep (sys.threads t) (ledger.reads t) ((sys'.setPhase t phase).threads t)
        (ledger.reads t) := by
    rw [System.setPhase, System.setThread, same]
    simpa using step
  rw [systemStep, threadStep]
  cases phase : (sys.threads t).phase with
  | connecting =>
      rcases run_connectSection clients sys t with ⟨-, joined⟩ | ⟨streams, -, -, refused⟩
      · rw [joined]
        exact setPhase _ rfl (.connect phase (.inl rfl))
      · rw [refused]
        exact setPhase { sys with streams } rfl (.connect phase (.inr rfl))
  | serving => exact loopStep_readCommand phase
  | holding line =>
      rw [delivered.executeSection_eq phase]
      exact setPhase _ rfl (.execute phase)
  | leaving =>
      rw [delivered.leaveSection_eq phase]
      exact setPhase _ rfl (.leave phase)
  | finished => exact .rest phase

/-- Anything else can only bring bytes, or the end of the stream. -/
theorem threads_systemStep (delivered : Delivered clients ledger sys) {action : Action}
    (foreign : action ≠ .step t) :
    (systemStep clients sys action).1.threads t =
        { sys.threads t with
          incoming := (sys.threads t).incoming ++ sentBy t [action]
          hungUp := (sys.threads t).hungUp || hasClosed t [action] } ∧
      (ledger.record (systemStep clients sys action).2).reads t = ledger.reads t ∧
      (ledger.record (systemStep clients sys action).2).subscriptions t =
        ledger.subscriptions t := by
  have nothing : { sys.threads t with
      incoming := (sys.threads t).incoming ++ []
      hungUp := (sys.threads t).hungUp || false } = sys.threads t := by
    rw [List.append_nil, Bool.or_false]
  cases action with
  | send other bytes =>
      by_cases here : other = t
      · subst here
        simp [systemStep, System.setThread, sentBy, hasClosed, Ledger.record]
      · simp [systemStep, System.setThread, sentBy, hasClosed, Ledger.record, here, Ne.symm here]
  | hangUp other =>
      by_cases here : other = t
      · subst here
        simp [systemStep, System.setThread, sentBy, hasClosed, Ledger.record]
      · simp [systemStep, System.setThread, sentBy, hasClosed, Ledger.record, here, Ne.symm here]
  | step u =>
      have here : t ≠ u := fun same => foreign (same ▸ rfl)
      have kept (sys' : System) (phase : Phase) (same : sys'.threads = sys.threads) :
          (sys'.setPhase u phase).threads t = sys.threads t := by
        rw [System.threads_setPhase_of_ne _ _ _ here, same]
      rw [show sentBy t [.step u] = [] from rfl, show hasClosed t [.step u] = false from rfl,
        nothing, systemStep, threadStep]
      cases phase : (sys.threads u).phase with
      | connecting =>
          rcases run_connectSection clients sys u with ⟨-, joined⟩ | ⟨streams, -, -, refused⟩
          · rw [joined]
            exact ⟨kept _ _ rfl, rfl, Function.update_of_ne here ..⟩
          · rw [refused]
            exact ⟨kept { sys with streams } _ rfl, rfl, rfl⟩
      | serving =>
          rcases readCommand_cases sys u with
            blocked | ⟨incoming, ended⟩ | ⟨incoming, line, -, taken⟩
          · simp only [Id.run_pure, blocked, Ledger.record, and_self]
          · simp only [Id.run_pure, ended]
            exact ⟨Function.update_of_ne here .., rfl, rfl⟩
          · simp only [Id.run_pure, taken]
            exact ⟨Function.update_of_ne here .., Function.update_of_ne here .., rfl⟩
      | holding line =>
          rw [delivered.executeSection_eq phase]
          exact ⟨kept _ _ rfl, rfl, rfl⟩
      | leaving =>
          rw [delivered.leaveSection_eq phase]
          exact ⟨kept _ _ rfl, rfl, Function.update_of_ne here ..⟩
      | finished => exact ⟨rfl, rfl, rfl⟩

end

/-! ## What a thread has read -/

/-- The lines read so far are the first that the loop takes from the stream, and it goes on
with what has not been read; whatever arrives later. -/
structure Following (sent : Text) (closed : Bool) (thread : ClientThread) (reads : List Text) :
    Prop where
  hungUp_eq : thread.hungUp = closed
  goesOn : thread.phase.reading = true → ∀ closed' more,
    (closed = true → closed' = true ∧ more = []) →
      readyLoop closed' (sent ++ more) =
        (reads ++ (readyLoop closed' (thread.incoming ++ more)).1,
          (readyLoop closed' (thread.incoming ++ more)).2)

namespace Following

variable {sent bytes : Text} {closed ends : Bool} {thread thread' : ClientThread}
  {reads reads' : List Text}

/-- Bytes arrive, or the stream ends. -/
theorem arrive (following : Following sent closed thread reads)
    (last : closed = true → bytes = []) :
    Following (sent ++ bytes) (closed || ends)
      { thread with incoming := thread.incoming ++ bytes, hungUp := thread.hungUp || ends }
      reads where
  hungUp_eq := by rw [following.hungUp_eq]
  goesOn reading closed' more whole := by
    rw [List.append_assoc, List.append_assoc]
    apply following.goesOn reading
    intro already
    obtain ⟨ended, nothing⟩ := whole (Bool.or_eq_true_iff.mpr (.inl already))
    exact ⟨ended, by rw [last already, nothing, List.append_nil]⟩

/-- A step of the thread. -/
theorem step (following : Following sent closed thread reads)
    (moved : LoopStep thread reads thread' reads') : Following sent closed thread' reads' := by
  obtain ⟨hungUp_eq, goesOn⟩ := following
  cases moved with
  | connect connecting entered =>
      exact ⟨hungUp_eq, fun _ => goesOn (by rw [connecting]; rfl)⟩
  | wait serving blocked => exact ⟨hungUp_eq, goesOn⟩
  | stop serving => exact ⟨hungUp_eq, fun reading => by contradiction⟩
  | @take buffer incoming serving read command =>
      refine ⟨hungUp_eq, fun _ closed' more whole => ?_⟩
      have later : fgets commandLineSize closed' (thread.incoming ++ more) =
          some (some buffer, incoming ++ more) := by
        rw [hungUp_eq] at read
        exact fgets_append more read (fun ended => (whole ended).2) (fun ended => (whole ended).1)
      rw [goesOn (by rw [serving]; rfl) closed' more whole, readyLoop_of_read later,
        if_neg command, List.append_assoc, List.singleton_append]
  | execute holding => exact ⟨hungUp_eq, fun _ => goesOn (by rw [holding]; rfl)⟩
  | leave leaving => exact ⟨hungUp_eq, fun reading => by contradiction⟩
  | rest finished => exact ⟨hungUp_eq, goesOn⟩

end Following

/-! ## Runs -/

theorem sentBy_append (t : ThreadId) (first second : List Action) :
    sentBy t (first ++ second) = sentBy t first ++ sentBy t second :=
  List.flatMap_append ..

theorem hasClosed_append (t : ThreadId) (first second : List Action) :
    hasClosed t (first ++ second) = (hasClosed t first || hasClosed t second) :=
  List.any_append ..

/-- After the end of a stream nothing is sent. -/
theorem closesLast_append {t : ThreadId} {first second : List Action}
    (closesLast : ClosesLast t (first ++ second)) :
    ClosesLast t first ∧ (hasClosed t first = true → sentBy t second = []) := by
  induction first with
  | nil => exact ⟨trivial, fun closed => by contradiction⟩
  | cons action rest ih =>
      rw [List.cons_append, ClosesLast, sentBy_append, List.append_eq_nil_iff] at closesLast
      obtain ⟨nothing, later⟩ := closesLast
      obtain ⟨before, behind⟩ := ih later
      refine ⟨⟨fun hangsUp => (nothing hangsUp).1, before⟩, fun closed => ?_⟩
      by_cases hangsUp : action = .hangUp t
      · exact (nothing hangsUp).2
      · exact behind (by simpa [hasClosed, hangsUp] using closed)

section

variable (clients : ThreadId → ClientInfo) (addr : DocAddr) (others : OtherOps addr)

/-- Throughout a run a thread follows its stream. -/
theorem following_reached {t : ThreadId} {actions : List Action}
    (closesLast : ClosesLast t actions) :
    Following (sentBy t actions) (hasClosed t actions)
      ((systemReached clients addr others actions).threads t)
      ((ledgerReached clients addr others actions).reads t) := by
  induction actions using List.reverseRecOn with
  | nil => exact ⟨rfl, fun _ _ _ _ => rfl⟩
  | append_singleton actions action ih =>
      have delivered := delivered_reached clients addr others actions
      obtain ⟨before, behind⟩ := closesLast_append closesLast
      have following := ih before
      rw [systemReached_concat, ledgerReached_concat, sentBy_append, hasClosed_append]
      by_cases own : action = .step t
      · have none : sentBy t [action] = [] ∧ hasClosed t [action] = false := by
          simp [sentBy, hasClosed, own]
        rw [none.1, none.2, List.append_nil, Bool.or_false, own]
        exact following.step (loopStep_step delivered t)
      · obtain ⟨thread_eq, reads_eq, -⟩ := threads_systemStep delivered own
        rw [thread_eq, reads_eq]
        exact following.arrive behind

/-! ## Coming to rest -/

/-- The thread is through with a client that it has not registered. -/
structure TurnedAway (t : ThreadId) (actions : List Action) : Prop where
  finished : ((systemReached clients addr others actions).threads t).phase = .finished
  unsubscribed : (ledgerReached clients addr others actions).subscriptions t = none

/-- The thread waits for the rest of a line. -/
structure WaitsForMore (t : ThreadId) (actions : List Action) : Prop where
  serving : ((systemReached clients addr others actions).threads t).phase = .serving
  begun : ((systemReached clients addr others actions).threads t).incoming ≠ []
  blocked : fgets commandLineSize ((systemReached clients addr others actions).threads t).hungUp
    ((systemReached clients addr others actions).threads t).incoming = none

/-- A thread that cannot go on is at rest, unless it has turned its client away or waits for
the rest of a line. -/
theorem atRest_cases {t : ThreadId} {actions : List Action}
    (stopped : ((systemReached clients addr others actions).threads t).phase = .serving ∧
        fgets commandLineSize ((systemReached clients addr others actions).threads t).hungUp
          ((systemReached clients addr others actions).threads t).incoming = none ∨
      ((systemReached clients addr others actions).threads t).phase = .finished) :
    AtRest t (ledgerReached clients addr others actions)
        (systemReached clients addr others actions) ∨
      TurnedAway clients addr others t actions ∨ WaitsForMore clients addr others t actions := by
  rcases stopped with ⟨serving, blocked⟩ | finished
  · by_cases begun : ((systemReached clients addr others actions).threads t).incoming = []
    · have tracked := (delivered_reached clients addr others actions).tracked t
      obtain ⟨stay, subscribed, -⟩ := tracked.subscribed_iff.mp (by rw [serving]; rfl)
      exact .inl ⟨by simp [subscribed], .inl ⟨serving, begun⟩⟩
    · exact .inr (.inr ⟨serving, begun, blocked⟩)
  · by_cases joined : (ledgerReached clients addr others actions).subscriptions t = none
    · exact .inr (.inl ⟨finished, joined⟩)
    · exact .inl ⟨joined, .inr (by rw [finished]; rfl)⟩

/-- A thread that keeps stepping while nothing arrives from its client comes to rest, whatever
the others do, unless it turns its client away or waits for the rest of a line. -/
theorem comes_to_rest {t : ThreadId} (actions : List Action) {later : List Action}
    (quiet : sentBy t later = [] ∧ hasClosed t later = false)
    (enough : ((systemReached clients addr others actions).threads t).workLeft <
      later.countP (· = .step t)) :
    ∃ first, first <+: later ∧
      (AtRest t (ledgerReached clients addr others (actions ++ first))
          (systemReached clients addr others (actions ++ first)) ∨
        TurnedAway clients addr others t (actions ++ first) ∨
          WaitsForMore clients addr others t (actions ++ first)) := by
  induction later generalizing actions with
  | nil => exact absurd enough (Nat.not_lt_zero _)
  | cons action rest ih =>
      obtain ⟨nothing, stays⟩ := quiet
      rw [← List.singleton_append, sentBy_append, List.append_eq_nil_iff] at nothing
      rw [← List.singleton_append, hasClosed_append, Bool.or_eq_false_iff] at stays
      have delivered := delivered_reached clients addr others actions
      -- The rest of the schedule, once there is no more to do than it has steps for.
      have goOn (enough : ((systemReached clients addr others
          (actions ++ [action])).threads t).workLeft < rest.countP (· = .step t)) :
          ∃ first, first <+: action :: rest ∧
            (AtRest t (ledgerReached clients addr others (actions ++ first))
                (systemReached clients addr others (actions ++ first)) ∨
              TurnedAway clients addr others t (actions ++ first) ∨
                WaitsForMore clients addr others t (actions ++ first)) := by
        obtain ⟨first, initial, rests⟩ := ih (actions ++ [action]) ⟨nothing.2, stays.2⟩ enough
        rw [List.append_assoc, List.singleton_append] at rests
        exact ⟨action :: first, (List.prefix_cons_inj _).mpr initial, rests⟩
      by_cases own : action = .step t
      · rcases (loopStep_step delivered t).workLeft_lt with less | stopped
        · apply goOn
          rw [systemReached_concat, own]
          rw [List.countP_cons_of_pos (by simp [own])] at enough
          omega
        · refine ⟨[], List.nil_prefix, ?_⟩
          rw [List.append_nil]
          exact atRest_cases clients addr others stopped
      · apply goOn
        rw [List.countP_cons_of_neg (by simp [own])] at enough
        rwa [systemReached_concat, (threads_systemStep delivered own).1, nothing.1, stays.1,
          List.append_nil, Bool.or_false]

/-- What a thread has not read yet is the end of what was sent. -/
theorem incoming_suffix (t : ThreadId) (actions : List Action)
    (reading : ((systemReached clients addr others actions).threads t).phase.reading = true) :
    ((systemReached clients addr others actions).threads t).incoming <:+ sentBy t actions := by
  induction actions using List.reverseRecOn with
  | nil => exact List.suffix_rfl
  | append_singleton actions action ih =>
      have delivered := delivered_reached clients addr others actions
      rw [systemReached_concat] at reading ⊢
      rw [sentBy_append]
      by_cases own : action = .step t
      · subst own
        rw [show sentBy t [.step t] = [] from rfl, List.append_nil]
        obtain ⟨before, shorter⟩ := (loopStep_step delivered t).reading_suffix reading
        exact shorter.trans (ih before)
      · rw [(threads_systemStep delivered own).1] at reading ⊢
        obtain ⟨front, whole⟩ := ih reading
        exact ⟨front, by rw [← List.append_assoc, whole]⟩

/-- Where a client has sent whole lines, a thread that keeps stepping comes to rest, unless it
turns its client away. -/
theorem comes_to_rest_of_lines {t : ThreadId} {actions later : List Action}
    {lines : List ClientLine} (wrote : sentBy t actions = ClientLine.stream lines)
    (quiet : sentBy t later = [] ∧ hasClosed t later = false)
    (enough : ((systemReached clients addr others actions).threads t).workLeft <
      later.countP (· = .step t)) :
    ∃ first, first <+: later ∧
      (AtRest t (ledgerReached clients addr others (actions ++ first))
          (systemReached clients addr others (actions ++ first)) ∨
        TurnedAway clients addr others t (actions ++ first)) := by
  obtain ⟨first, ⟨rest, whole⟩, atRest | away | waits⟩ :=
    comes_to_rest clients addr others actions quiet enough
  · exact ⟨first, ⟨rest, whole⟩, .inl atRest⟩
  · exact ⟨first, ⟨rest, whole⟩, .inr away⟩
  · -- A line that has begun has all come, so nobody waits for its end.
    obtain ⟨serving, begun, blocked⟩ := waits
    have unread := incoming_suffix clients addr others t (actions ++ first) (by rw [serving]; rfl)
    have nothing := quiet.1
    rw [← whole, sentBy_append, List.append_eq_nil_iff] at nothing
    rw [sentBy_append, wrote, nothing.1, List.append_nil] at unread
    exact absurd blocked (fgets_ne_none_of_newline _ (by decide)
      (ClientLine.newline_mem_of_suffix unread begun))

end

end CollabMarkdown.Process
