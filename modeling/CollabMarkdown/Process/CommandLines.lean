import CollabMarkdown.CString.Lines
import CollabMarkdown.Process.Delivery

/-!
# One line, one command

The command loop reads its stream with a buffer of 512 bytes and takes what one
read returns for a command.  A line that does not fit the buffer comes in as
several chunks, and each of them is submitted, or taken for the end of the
session, as if the client had written it as a line.
-/

namespace CollabMarkdown.Process

open CollabMarkdown.CString
open CollabMarkdown.Command
open CollabMarkdown.Core
open CollabMarkdown.Markdown
open CollabMarkdown.Transition

/-! ## The loop on a whole stream -/

/-- The lines that the command loop submits from a stream, and whether it ends at a
line that ends the session rather than at the end of the stream. -/
def commandLoop (stream : Text) : List Text × Bool :=
  match _read : fgets commandLineSize true stream with
  | none => ([], false)
  | some (none, _) => ([], false)
  | some (some buffer, rest) =>
      if isQuit (untilNul buffer) then
        ([], true)
      else
        (untilNul buffer :: (commandLoop rest).1, (commandLoop rest).2)
termination_by stream.length
decreasing_by all_goals exact fgets_shorter _read

/-- A line that a client writes. -/
structure ClientLine where
  body : Text
  noNewline : newline ∉ body
  noNul : 0 ∉ body

namespace ClientLine

/-- The line as the client sends it. -/
def text (line : ClientLine) : Text :=
  line.body ++ [newline]

/-- The stream of a client that writes some lines. -/
def stream (lines : List ClientLine) : Text :=
  lines.flatMap text

/-- The lines in front of the first one that ends the session. -/
def commands (lines : List ClientLine) : List Text :=
  (lines.map text).takeWhile (!isQuit ·)

/-- Some line ends the session. -/
def quits (lines : List ClientLine) : Bool :=
  (lines.map text).any isQuit

theorem untilNul_text (line : ClientLine) : untilNul line.text = line.text :=
  untilNul_of_notMem (noNul_line line.noNul)

/-- What is left of a stream of lines ends a line. -/
theorem newline_mem_of_suffix {lines : List ClientLine} {part : Text}
    (isSuffix : part <:+ stream lines) (nonempty : part ≠ []) : newline ∈ part := by
  rcases List.eq_nil_or_concat lines with rfl | ⟨init, last, rfl⟩
  · exact absurd (List.suffix_nil.mp isSuffix) nonempty
  · have whole : stream (init ++ [last]) = stream init ++ last.body ++ [newline] := by
      simp [stream, text]
    rw [List.concat_eq_append, whole, List.suffix_concat_iff] at isSuffix
    obtain ⟨front, rfl, -⟩ := isSuffix.resolve_left nonempty
    exact List.mem_append_right _ (List.mem_singleton_self _)

end ClientLine

theorem commandLoop_of_read {stream buffer rest : Text}
    (read : fgets commandLineSize true stream = some (some buffer, rest)) :
    commandLoop stream =
      if isQuit (untilNul buffer) then ([], true)
      else (untilNul buffer :: (commandLoop rest).1, (commandLoop rest).2) := by
  rw [commandLoop, read]

/-- A line that fits the buffer is one command. -/
theorem commandLoop_line (line : ClientLine) (rest : Text)
    (fits : line.text.length < commandLineSize) :
    commandLoop (line.text ++ rest) =
      if isQuit line.text then ([], true)
      else (line.text :: (commandLoop rest).1, (commandLoop rest).2) := by
  have short : line.body.length < commandLineSize - 1 := by
    rw [ClientLine.text, List.length_append, List.length_singleton] at fits
    omega
  have split : line.text ++ rest = line.body ++ newline :: rest := by simp [ClientLine.text]
  have read : fgets commandLineSize true (line.body ++ newline :: rest) =
      some (some line.text, rest) := fgets_of_fits true rest line.noNewline short
  rw [split, commandLoop_of_read read, line.untilNul_text]

theorem commandLoop_nil : commandLoop [] = ([], false) := by
  rw [commandLoop]
  rfl

/-- A stream of lines that fit is submitted line by line up to the first one that
ends the session. -/
theorem commandLoop_stream {lines : List ClientLine}
    (fits : ∀ text ∈ ClientLine.commands lines, text.length < commandLineSize) :
    commandLoop (ClientLine.stream lines) =
      (ClientLine.commands lines, ClientLine.quits lines) := by
  induction lines with
  | nil => exact commandLoop_nil
  | cons line rest ih =>
      rw [ClientLine.stream, List.flatMap_cons, ← ClientLine.stream]
      by_cases quit : isQuit line.text = true
      · have short : line.text.length < commandLineSize := by
          rcases Bool.or_eq_true_iff.mp quit with same | same <;>
            · rw [of_decide_eq_true same]
              decide
        rw [commandLoop_line line _ short, if_pos quit]
        simp [ClientLine.commands, ClientLine.quits, quit]
      · have split : ClientLine.commands (line :: rest) =
            line.text :: ClientLine.commands rest := by
          simp [ClientLine.commands, quit]
        rw [split] at fits
        have later := ih fun text member => fits text (List.mem_cons_of_mem _ member)
        rw [commandLoop_line line _ (fits line.text List.mem_cons_self), if_neg quit, later, split]
        simp [ClientLine.quits, quit]

theorem length_commandLoop_lt (stream : Text) :
    ∀ line ∈ (commandLoop stream).1, line.length < commandLineSize := by
  induction stream using commandLoop.induct with
  | case1 stream blocked =>
      rw [commandLoop, blocked]
      simp
  | case2 stream rest ended =>
      rw [commandLoop, ended]
      simp
  | case3 stream buffer rest read quit =>
      rw [commandLoop_of_read read, if_pos quit]
      simp
  | case4 stream buffer rest read goesOn ih =>
      have shorter : (untilNul buffer).length ≤ buffer.length :=
        (List.takeWhile_prefix _).length_le
      have fits := length_fgets_lt (by decide) read
      rw [commandLoop_of_read read, if_neg goesOn]
      simp only [List.mem_cons, forall_eq_or_imp]
      exact ⟨Nat.lt_of_le_of_lt shorter fits, ih⟩

/-- The loop submits exactly the lines in front of the end of the session if and only
if these fit the buffer. -/
theorem commandLoop_stream_iff (lines : List ClientLine) :
    (commandLoop (ClientLine.stream lines)).1 = ClientLine.commands lines ↔
      ∀ text ∈ ClientLine.commands lines, text.length < commandLineSize := by
  constructor
  · intro same
    rw [← same]
    exact length_commandLoop_lt _
  · intro fits
    rw [commandLoop_stream fits]

/-! ## The loop in a run of the system -/

/-- The bytes a client sends in a run. -/
def sentBy (t : ThreadId) (actions : List Action) : Text :=
  actions.flatMap fun
    | .send other bytes => if other = t then bytes else []
    | .step _ | .hangUp _ => []

/-- A client that closes its end has nothing more to send. -/
def ClosesLast (t : ThreadId) : List Action → Prop
  | [] => True
  | action :: rest => (action = .hangUp t → sentBy t rest = []) ∧ ClosesLast t rest

/-- The thread may still read. -/
def Phase.reading : Phase → Bool
  | .connecting | .serving | .holding _ => true
  | .leaving | .finished => false

/-- What a thread has read of a stream, when part of it has not been sent yet: the
loop goes on with what is left, or is over. -/
structure Reading (stream : Text) (reads : List Text) (joined : Prop) (thread : ClientThread)
    (coming : Text) : Prop where
  closed : thread.hungUp = true → coming = []
  goesOn : thread.phase.reading = true →
    commandLoop stream = (reads ++ (commandLoop (thread.incoming ++ coming)).1,
      (commandLoop (thread.incoming ++ coming)).2)
  stopped : thread.phase.reading = false → joined → (commandLoop stream).1 = reads

namespace Reading

variable {stream coming : Text} {reads : List Text} {joined joined' : Prop} {thread : ClientThread}

/-- Sending moves bytes that are coming to the thread. -/
theorem send {bytes : Text} (reading : Reading stream reads joined thread (bytes ++ coming)) :
    Reading stream reads joined { thread with incoming := thread.incoming ++ bytes } coming where
  closed hungUp := (List.append_eq_nil_iff.mp (reading.closed hungUp)).2
  goesOn phase := by
    rw [List.append_assoc]
    exact reading.goesOn phase
  stopped := reading.stopped

theorem hangUp (reading : Reading stream reads joined thread coming) (last : coming = []) :
    Reading stream reads joined { thread with hungUp := true } coming where
  closed _ := last
  goesOn := reading.goesOn
  stopped := reading.stopped

/-- A section that leaves the thread in front of its next read. -/
theorem serve (reading : Reading stream reads joined thread coming)
    (before : thread.phase.reading = true) :
    Reading stream reads joined' { thread with phase := .serving } coming where
  closed := reading.closed
  goesOn _ := reading.goesOn before
  stopped phase := by contradiction

theorem finish (reading : Reading stream reads joined thread coming)
    (before : joined' → joined ∧ thread.phase.reading = false) :
    Reading stream reads joined' { thread with phase := .finished } coming where
  closed := reading.closed
  goesOn phase := by contradiction
  stopped _ stay := reading.stopped (before stay).2 (before stay).1

/-- A read at the end of the stream ends the loop. -/
theorem ended (reading : Reading stream reads joined thread coming)
    (before : thread.phase.reading = true) {incoming : Text}
    (read : fgets commandLineSize thread.hungUp thread.incoming = some (none, incoming)) :
    Reading stream reads joined { thread with incoming, phase := .leaving } coming where
  closed := reading.closed
  goesOn phase := by contradiction
  stopped _ _ := by
    obtain ⟨hungUp, empty⟩ := fgets_ended (by decide) read
    rw [reading.goesOn before, empty, reading.closed hungUp, List.nil_append, commandLoop_nil,
      List.append_nil]

variable {buffer incoming : Text}

/-- So does a line that ends the session. -/
theorem quit (reading : Reading stream reads joined thread coming)
    (before : thread.phase.reading = true)
    (read : fgets commandLineSize thread.hungUp thread.incoming = some (some buffer, incoming))
    (quits : isQuit (untilNul buffer) = true) :
    Reading stream reads joined { thread with incoming, phase := .leaving } coming where
  closed := reading.closed
  goesOn phase := by contradiction
  stopped _ _ := by
    have whole := fgets_append coming read reading.closed fun _ => rfl
    rw [reading.goesOn before, commandLoop_of_read whole, if_pos quits, List.append_nil]

/-- Any other read takes the next line of the loop. -/
theorem take (reading : Reading stream reads joined thread coming)
    (before : thread.phase.reading = true)
    (read : fgets commandLineSize thread.hungUp thread.incoming = some (some buffer, incoming))
    (command : ¬isQuit (untilNul buffer) = true) :
    Reading stream (reads ++ [untilNul buffer]) joined
      { thread with incoming, phase := .holding (untilNul buffer) } coming where
  closed := reading.closed
  goesOn _ := by
    have whole := fgets_append coming read reading.closed fun _ => rfl
    rw [reading.goesOn before, commandLoop_of_read whole, if_neg command, List.append_assoc,
      List.singleton_append]
  stopped phase := by contradiction

end Reading

/-- The invariant of one thread in a run of the system. -/
def ReadingIn (stream : Text) (t : ThreadId) (ledger : Ledger) (sys : System)
    (actions : List Action) : Prop :=
  Reading stream (ledger.reads t) (ledger.subscriptions t ≠ none) (sys.threads t)
    (sentBy t actions)

section

variable {clients : ThreadId → ClientInfo} {stream : Text} {t : ThreadId} {ledger : Ledger}
  {sys : System} {rest : List Action}

theorem readingIn_readCommand (reading : ReadingIn stream t ledger sys rest)
    (serving : (sys.threads t).phase = .serving) :
    ReadingIn stream t (ledger.record (readCommand sys t).2) (readCommand sys t).1 rest := by
  have before : (sys.threads t).phase.reading = true := congrArg Phase.reading serving
  unfold ReadingIn at reading ⊢
  match read : fgets commandLineSize (sys.threads t).hungUp (sys.threads t).incoming with
  | none => simpa [readCommand, read, Ledger.record] using reading
  | some (none, incoming) =>
      simpa [readCommand, read, Ledger.record, System.setThread] using reading.ended before read
  | some (some buffer, incoming) =>
      by_cases quits : isQuit (untilNul buffer) = true
      · simpa [readCommand, read, quits, Ledger.record, System.setThread] using
          reading.quit before read quits
      · simpa [readCommand, read, quits, Ledger.record, System.setThread] using
          reading.take before read quits

/-- A step that concerns another thread. -/
theorem ReadingIn.frame {ledger' : Ledger} {sys' : System}
    (reading : ReadingIn stream t ledger sys rest)
    (thread_eq : sys'.threads t = sys.threads t) (reads_eq : ledger'.reads t = ledger.reads t)
    (subscription_eq : ledger'.subscriptions t = ledger.subscriptions t) :
    ReadingIn stream t ledger' sys' rest := by
  rw [ReadingIn, thread_eq, reads_eq, subscription_eq]
  exact reading

/-- A section of the thread itself. -/
theorem ReadingIn.setPhase {ledger' : Ledger} {sys' : System} {phase : Phase}
    (same : sys'.threads = sys.threads)
    (reading : Reading stream (ledger'.reads t) (ledger'.subscriptions t ≠ none)
      { sys.threads t with phase } (sentBy t rest)) :
    ReadingIn stream t ledger' (sys'.setPhase t phase) rest := by
  simpa [ReadingIn, System.setPhase, System.setThread, same] using reading

theorem ReadingIn.readCommand_of_ne (reading : ReadingIn stream t ledger sys rest)
    {other : ThreadId} (apart : t ≠ other) :
    ReadingIn stream t (ledger.record (readCommand sys other).2) (readCommand sys other).1
      rest := by
  rcases readCommand_cases sys other with blocked | ⟨incoming, ended⟩ | ⟨incoming, line, -, taken⟩
  · rw [blocked]
    exact reading
  · rw [ended]
    exact reading.frame (Function.update_of_ne apart ..) rfl rfl
  · rw [taken]
    exact reading.frame (Function.update_of_ne apart ..) (Function.update_of_ne apart ..) rfl

/-- The section of a thread in its current phase. -/
theorem ReadingIn.step (reading : ReadingIn stream t ledger sys rest)
    (delivered : Delivered clients ledger sys) (other : ThreadId) :
    ReadingIn stream t (ledger.record (systemStep clients sys (.step other)).2)
      (systemStep clients sys (.step other)).1 rest := by
  rw [systemStep, threadStep]
  by_cases here : t = other
  · subst here
    cases phase : (sys.threads t).phase with
    | connecting =>
        obtain ⟨unsubscribed, -⟩ := (delivered.tracked t).untouched phase
        rcases run_connectSection clients sys t with ⟨-, joined⟩ | ⟨streams, -, -, refused⟩
        · rw [joined]
          exact ReadingIn.setPhase rfl (Reading.serve reading (congrArg Phase.reading phase))
        · rw [refused]
          exact ReadingIn.setPhase rfl
            (Reading.finish reading fun stay => absurd unsubscribed stay)
    | serving => exact readingIn_readCommand reading phase
    | holding line =>
        rw [delivered.executeSection_eq phase]
        exact ReadingIn.setPhase rfl (Reading.serve reading (congrArg Phase.reading phase))
    | leaving =>
        rw [delivered.leaveSection_eq phase]
        apply ReadingIn.setPhase rfl
        apply Reading.finish reading
        intro stay
        refine ⟨fun none => stay ?_, congrArg Phase.reading phase⟩
        simp [Ledger.record, none]
    | finished => exact reading
  · have kept (sys' : System) (phase : Phase) (same : sys'.threads = sys.threads) :
        (sys'.setPhase other phase).threads t = sys.threads t := by
      rw [System.threads_setPhase_of_ne _ _ _ here, same]
    cases phase : (sys.threads other).phase with
    | connecting =>
        rcases run_connectSection clients sys other with ⟨-, joined⟩ | ⟨streams, -, -, refused⟩
        · rw [joined]
          exact reading.frame (kept _ _ rfl) rfl (Function.update_of_ne here ..)
        · rw [refused]
          exact reading.frame (kept _ _ rfl) rfl rfl
    | serving => exact reading.readCommand_of_ne here
    | holding line =>
        rw [delivered.executeSection_eq phase]
        exact reading.frame (kept _ _ rfl) rfl rfl
    | leaving =>
        rw [delivered.leaveSection_eq phase]
        exact reading.frame (kept _ _ rfl) rfl (Function.update_of_ne here ..)
    | finished => exact reading

/-- What one action does to the reading of a thread. -/
theorem ReadingIn.systemStep {action : Action}
    (reading : ReadingIn stream t ledger sys (action :: rest))
    (delivered : Delivered clients ledger sys) (closesLast : ClosesLast t (action :: rest)) :
    ReadingIn stream t (ledger.record (systemStep clients sys action).2)
      (systemStep clients sys action).1 rest := by
  cases action with
  | step other =>
      have now : ReadingIn stream t ledger sys rest := reading
      exact now.step delivered other
  | send other bytes =>
      by_cases here : other = t
      · subst here
        have sent : sentBy other (.send other bytes :: rest) = bytes ++ sentBy other rest := by
          simp [sentBy]
        rw [ReadingIn, sent] at reading
        simpa [ReadingIn, Process.systemStep, System.setThread, Ledger.record] using reading.send
      · have sent : sentBy t (.send other bytes :: rest) = sentBy t rest := by
          simp [sentBy, here]
        rw [ReadingIn, sent] at reading
        exact ReadingIn.frame reading (Function.update_of_ne (Ne.symm here) ..) rfl rfl
  | hangUp other =>
      have now : ReadingIn stream t ledger sys rest := reading
      by_cases here : other = t
      · subst here
        simpa [ReadingIn, Process.systemStep, System.setThread, Ledger.record] using
          Reading.hangUp now (closesLast.1 rfl)
      · exact now.frame (Function.update_of_ne (Ne.symm here) ..) rfl rfl

end

/-- Throughout a run a thread has read its part of what the loop makes of its stream. -/
theorem readingIn_reached (clients : ThreadId → ClientInfo) (addr : DocAddr)
    (others : OtherOps addr) {actions : List Action} {t : ThreadId}
    (closesLast : ClosesLast t actions) :
    ReadingIn (sentBy t actions) t (ledgerReached clients addr others actions)
      (systemReached clients addr others actions) [] := by
  have initial : Reading (sentBy t actions) [] (Ledger.empty.subscriptions t ≠ none)
      ⟨[], false, .connecting⟩ (sentBy t actions) :=
    ⟨fun hungUp => by contradiction, fun _ => rfl, fun phase => by contradiction⟩
  apply (run_forecast (systemStep clients) (fun history sys rest =>
    Delivered clients (Ledger.ofEvents history) sys ∧ ClosesLast t rest ∧
      ReadingIn (sentBy t actions) t (Ledger.ofEvents history) sys rest) ?_ actions
    ⟨delivered_start clients addr others, closesLast, initial⟩).2.2
  rintro history sys action rest ⟨delivered, closes, reading⟩
  have recorded : Ledger.ofEvents (history ++ [(systemStep clients sys action).2]) =
      (Ledger.ofEvents history).record (systemStep clients sys action).2 := by
    simp [Ledger.ofEvents]
  rw [recorded]
  exact ⟨delivered.step action, closes.2, reading.systemStep delivered closes⟩

/-! ## One line, one command -/

/-- Nothing of what a client sent is left for its thread to do: it has joined, and it
waits for more or has left its loop.  A thread that keeps stepping gets there. -/
structure AtRest (t : ThreadId) (ledger : Ledger) (sys : System) : Prop where
  joined : ledger.subscriptions t ≠ none
  idle : (sys.threads t).phase = .serving ∧ (sys.threads t).incoming = [] ∨
    (sys.threads t).phase.reading = false

/-- At rest, a thread has executed what the loop makes of the whole stream. -/
theorem executed_of_atRest (clients : ThreadId → ClientInfo) (addr : DocAddr)
    (others : OtherOps addr) (actions : List Action) (t : ThreadId)
    (closesLast : ClosesLast t actions)
    (rest : AtRest t (ledgerReached clients addr others actions)
      (systemReached clients addr others actions)) :
    linesOf t (ledgerReached clients addr others actions).executions =
        (commandLoop (sentBy t actions)).1 ∧
      ((commandLoop (sentBy t actions)).2 = true →
        ((systemReached clients addr others actions).threads t).phase.reading = false) := by
  have reading := readingIn_reached clients addr others closesLast
  have lines_eq := ((delivered_reached clients addr others actions).tracked t).lines_eq
  rcases rest with ⟨joined, ⟨serving, drained⟩ | stopped⟩
  · rw [serving, Phase.inHand, List.append_nil] at lines_eq
    have whole := reading.goesOn (congrArg Phase.reading serving)
    have nothing : sentBy t [] = [] := rfl
    rw [drained, nothing, List.append_nil, commandLoop_nil, List.append_nil, ← lines_eq] at whole
    rw [whole]
    exact ⟨rfl, fun ended => by contradiction⟩
  · have none : ((systemReached clients addr others actions).threads t).phase.inHand = [] := by
      cases phase : ((systemReached clients addr others actions).threads t).phase with
      | connecting | serving | holding line => simp [phase, Phase.reading] at stopped
      | leaving | finished => rfl
    rw [none, List.append_nil] at lines_eq
    exact ⟨lines_eq.trans (reading.stopped stopped joined).symm, fun _ => stopped⟩

/-- Each line up to the first one that ends the session was executed as one command,
and the session ends there. -/
structure OneCommandPerLine (lines : List ClientLine) (t : ThreadId) (ledger : Ledger)
    (sys : System) : Prop where
  executed : linesOf t ledger.executions = ClientLine.commands lines
  stops : ClientLine.quits lines = true → (sys.threads t).phase.reading = false

/-- The lines of a client are executed one by one exactly when those in front of the
end of the session fit the buffer with their newline. -/
theorem one_command_per_line_iff (clients : ThreadId → ClientInfo) (addr : DocAddr)
    (others : OtherOps addr) (actions : List Action) (t : ThreadId) (lines : List ClientLine)
    (wrote : sentBy t actions = ClientLine.stream lines) (closesLast : ClosesLast t actions)
    (rest : AtRest t (ledgerReached clients addr others actions)
      (systemReached clients addr others actions)) :
    OneCommandPerLine lines t (ledgerReached clients addr others actions)
        (systemReached clients addr others actions) ↔
      ∀ text ∈ ClientLine.commands lines, text.length < commandLineSize := by
  obtain ⟨executed, stops⟩ := executed_of_atRest clients addr others actions t closesLast rest
  rw [wrote] at executed stops
  constructor
  · intro each
    rw [← commandLoop_stream_iff, ← executed, each.executed]
  · intro fits
    rw [commandLoop_stream fits] at executed stops
    exact ⟨executed, stops⟩

/-- One client, and what it sends. -/
def soleWriter : ThreadId → ClientInfo :=
  fun t => ⟨10 + t, Username.ann, .write⟩

/-- A session of two short lines. -/
theorem one_command_per_line_iff_short :
    let lines : List ClientLine :=
      [⟨ascii "INSERT 0 ab", by decide, by decide⟩, ⟨ascii "QUIT", by decide, by decide⟩]
    let actions : List Action :=
      [.step 0, .send 0 (ascii "INSERT 0 ab\nQUI"), .step 0, .step 0, .send 0 (ascii "T\n"),
        .hangUp 0, .step 0]
    let ledger := ledgerReached soleWriter 1 ⟨[], rfl⟩ actions
    let sys := systemReached soleWriter 1 ⟨[], rfl⟩ actions
    OneCommandPerLine lines 0 ledger sys ↔
      ∀ text ∈ ClientLine.commands lines, text.length < commandLineSize :=
  one_command_per_line_iff soleWriter 1 ⟨[], rfl⟩ _ 0 _ (by decide)
    (by simp [ClosesLast, sentBy]) ⟨by decide, .inr (by decide)⟩

/-- The line of a client that pads a command to the size of the buffer. -/
def paddedLine : ClientLine where
  body := List.replicate 511 97 ++ ascii "INSERT 0 X"
  noNewline := by decide +kernel
  noNul := by decide +kernel

/-- The one line is executed as two commands, and the second one edits the document. -/
theorem padded_line_is_two_commands :
    let actions : List Action :=
      [.step 0, .send 0 paddedLine.text, .step 0, .step 0, .step 0, .step 0]
    let ledger := ledgerReached soleWriter 1 ⟨[], rfl⟩ actions
    let sys := systemReached soleWriter 1 ⟨[], rfl⟩ actions
    sentBy 0 actions = ClientLine.stream [paddedLine] ∧ ClosesLast 0 actions ∧
      AtRest 0 ledger sys ∧ ¬OneCommandPerLine [paddedLine] 0 ledger sys ∧
      linesOf 0 ledger.executions = [List.replicate 511 97, ascii "INSERT 0 X\n"] ∧
      sys.server.store.committedText = ascii "X" := by
  intro actions ledger sys
  have executed : linesOf 0 ledger.executions =
      [List.replicate 511 97, ascii "INSERT 0 X\n"] := by decide +kernel
  refine ⟨by decide +kernel, by simp [ClosesLast, actions], ⟨by decide +kernel, .inl ?_⟩, ?_,
    executed, by decide +kernel⟩
  · exact ⟨by decide +kernel, by decide +kernel⟩
  · intro each
    have count := congrArg List.length (executed.symm.trans each.executed)
    revert count
    decide +kernel

end CollabMarkdown.Process
