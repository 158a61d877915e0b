import CollabMarkdown.Client.Handshake
import CollabMarkdown.Client.Receive

/-!
# Waiting for updates

The client sleeps in `select` until the kernel FIFO of the server stream holds
bytes, but reads that stream through a stdio buffer.  A read that fills the buffer
may move more than the unit the client is receiving: the initial document, or one
payload.  What it moves of later payloads the FIFO no longer shows, so an update
that is moved whole, while nothing follows it, waits in the buffer while the client
sleeps.
-/

namespace CollabMarkdown.Client

open CollabMarkdown.CString
open CollabMarkdown.Command
open CollabMarkdown.Core
open CollabMarkdown.Process
open CollabMarkdown.Sequence
open CollabMarkdown.Transition

/-! ## The client -/

/-- Where the client is: in the handshake, in `select`, in a pass over the stream, or
out of its loop.  A unit that is being received keeps the bytes taken for it. -/
inductive Phase where
  | greeting (taken : Text)
  | selecting
  | receiving (taken : Text)
  | left
  deriving DecidableEq, Repr

/-- A client with its stdio buffer, the bytes in the kernel FIFO, and those that the
server has written or will write but that have not arrived. -/
structure ClientState where
  phase : Phase
  buffer : Text
  fifo : Text
  coming : Text
  deriving DecidableEq, Repr

/-- What happens next: bytes arrive in the FIFO, the user types a line, `select`
returns for the server stream, a read on the empty buffer moves bytes from the
FIFO, or the reading calls take what the buffer holds. -/
inductive ClientAction where
  | arrive (n : Nat)
  | type (input : Text)
  | wake
  | read (n : Nat)
  | take
  deriving DecidableEq, Repr

/-- The lines that end a session. -/
def endsSession (input : Text) : Bool :=
  input == ascii "DISCONNECT\n" || input == ascii "QUIT\n"

/-- The handshake on an open stream, with allocations succeeding. -/
def greet (reads : ShortReads) (pending : Text) : Option (Greeting × Text) :=
  Id.run (handshake reads false pending)

/-- The reading calls on what the buffer holds.  They empty it unless the unit ends
in it. -/
def takeBuffered (reads : ShortReads) (s : ClientState) : ClientState × List Text :=
  match s.phase with
  | .greeting taken =>
      match greet reads (taken ++ s.buffer) with
      | none => ({ s with phase := .greeting (taken ++ s.buffer), buffer := [] }, [])
      | some (.connected _, rest) => ({ s with phase := .selecting, buffer := rest }, [])
      | some (_, rest) => ({ s with phase := .left, buffer := rest }, [])
  | .receiving taken =>
      match receivePass false (taken ++ s.buffer) with
      | none => ({ s with phase := .receiving (taken ++ s.buffer), buffer := [] }, [])
      | some (some shown, rest) => ({ s with phase := .selecting, buffer := rest }, shown)
      | some (none, rest) => ({ s with phase := .left, buffer := rest }, [])
  | .selecting | .left => (s, [])

/-- One action, and the chunks displayed.  An action that is not possible has no
effect. -/
def clientStep (reads : ShortReads) (s : ClientState) : ClientAction → ClientState × List Text
  | .arrive n => ({ s with fifo := s.fifo ++ s.coming.take n, coming := s.coming.drop n }, [])
  | .type input =>
      if s.phase = .selecting ∧ endsSession input = true then
        ({ s with phase := .left }, [])
      else
        (s, [])
  | .wake =>
      if s.phase = .selecting ∧ s.fifo ≠ [] then
        ({ s with phase := .receiving [] }, [])
      else
        (s, [])
  | .read n =>
      match s.phase with
      | .greeting _ | .receiving _ =>
          if s.buffer = [] then
            ({ s with buffer := s.fifo.take n, fifo := s.fifo.drop n }, [])
          else
            (s, [])
      | .selecting | .left => (s, [])
  | .take => takeBuffered reads s

/-- What the server writes when the client connects. -/
structure Welcome where
  role : UserRole
  version : UInt64
  doc : Text
  fits : doc.length < sizeModulus

/-- What the server sends a client that it welcomes. -/
def Welcome.text (welcome : Welcome) : Text :=
  initialDocument welcome.role welcome.version welcome.doc

/-- The payloads of a list of broadcasts, as they follow each other. -/
def streamOf (broadcasts : List Broadcast) : Text :=
  (broadcasts.map (·.text)).flatten

/-- A client that has sent its name, in front of a stream. -/
def connecting (welcome : Welcome) (broadcasts : List Broadcast) : ClientState :=
  ⟨.greeting [], [], [], welcome.text ++ streamOf broadcasts⟩

namespace ClientState

/-- The client sleeps: it is in `select`, and the FIFO holds no byte. -/
def Asleep (s : ClientState) : Prop :=
  s.phase = .selecting ∧ s.fifo = []

/-- The stdio buffer holds a complete payload.  Between two units it starts with the
first one that has not been displayed. -/
def HoldsPayload (s : ClientState) : Prop :=
  ∃ broadcast : Broadcast, broadcast.text <+: s.buffer

end ClientState

/-! ## Reading in pieces -/

theorem readLine_resumable : Resumable (readLine false) := by
  intro pending line rest more read
  obtain ⟨⟨buf, left⟩, taken, out⟩ := Option.map_eq_some_iff.mp read
  rw [Prod.mk.injEq] at out
  obtain ⟨rfl, rfl⟩ := out
  rw [readLine, fgets_resumable (by decide) more taken]
  rfl

/-- A document read exactly is what the stream starts with. -/
theorem readExact_eq_some {reads : ShortReads} {call len : Nat} {pending rest : Text}
    {doc : Option Text} (read : readExact reads false call len pending = some (doc, rest)) :
    len ≤ pending.length ∧ doc = some (pending.take len) ∧ rest = pending.drop len := by
  induction len using Nat.strongRecOn generalizing call pending doc rest with
  | ind len ih =>
      rw [readExact] at read
      by_cases wanted : len = 0
      · simp only [wanted, if_pos, Option.some.injEq, Prod.mk.injEq] at read
        simp [wanted, ← read.1, ← read.2]
      · rw [if_neg wanted] at read
        by_cases empty : pending = []
        · simp [fread, empty] at read
        · have positive := reads.count_pos call (Nat.pos_of_ne_zero wanted)
            (List.length_pos_of_ne_nil empty)
          have bound := reads.count_le call len pending.length
          have delivered : fread reads call len false pending =
              some (pending.take (reads.count call len pending.length),
                pending.drop (reads.count call len pending.length)) := by
            simp [fread, empty]
          generalize reads.count call len pending.length = n at positive bound delivered
          have taken : (pending.take n).length = n := List.length_take_of_le (by omega)
          rw [delivered] at read
          simp only [taken, Nat.ne_of_gt positive, dite_false] at read
          obtain ⟨⟨later, left⟩, recursion, out⟩ := Option.map_eq_some_iff.mp read
          rw [Prod.mk.injEq] at out
          obtain ⟨enough, rfl, rfl⟩ := ih (len - n) (by omega) recursion
          rw [List.length_drop] at enough
          have split : len = n + (len - n) := by omega
          refine ⟨by omega, ?_, ?_⟩
          · rw [← out.1, split, List.take_add]
            simp
          · rw [← out.2, List.drop_drop, ← split]

theorem readExact_resumable (reads : ShortReads) (call len : Nat) :
    Resumable (readExact reads false call len) := by
  intro pending doc rest more read
  obtain ⟨enough, rfl, rfl⟩ := readExact_eq_some read
  have whole := readExact_append reads false call (pending.take len) (pending.drop len ++ more)
  rwa [List.length_take_of_le enough, ← List.append_assoc, List.take_append_drop] at whole

/-- The handshake can be read in pieces. -/
theorem greet_resumable (reads : ShortReads) : Resumable (greet reads) := by
  intro pending greeting rest more read
  unfold greet handshake at read ⊢
  cases first : readLine false pending with
  | none => simp [first] at read
  | some out =>
      obtain ⟨line, afterRole⟩ := out
      rw [readLine_resumable more first]
      rw [first] at read
      cases line with
      | none => simpa using read
      | some line =>
          dsimp only at read ⊢
          by_cases rejected : (ascii "Reject").isPrefixOf (stripNewline line) = true
          · simpa [rejected] using read
          · simp only [if_neg rejected] at read ⊢
            cases second : readLine false afterRole with
            | none => simp [second] at read
            | some out =>
                obtain ⟨line, afterVersion⟩ := out
                rw [readLine_resumable more second]
                rw [second] at read
                cases line with
                | none => simpa using read
                | some line =>
                    dsimp only at read ⊢
                    cases third : readLine false afterVersion with
                    | none => simp [third] at read
                    | some out =>
                        obtain ⟨line, afterLength⟩ := out
                        rw [readLine_resumable more third]
                        rw [third] at read
                        cases line with
                        | none => simpa using read
                        | some line =>
                            simp only [readDocument, Id.run_bind, run_malloc, if_true] at read ⊢
                            generalize (strtoul (stripNewline line)).1 = docLen at read ⊢
                            cases body : readExact reads false 0 docLen afterLength with
                            | none => simp [body] at read
                            | some out =>
                                obtain ⟨doc, left⟩ := out
                                rw [readExact_resumable reads 0 docLen more body]
                                rw [body] at read
                                cases doc with
                                | none => simpa using read
                                | some doc => simpa using read

theorem receiveRest_resumable : Resumable (receiveRest false) := by
  intro pending chunks rest more read
  induction pending using receiveRest.induct false generalizing chunks with
  | case1 pending blocks =>
      rw [receiveRest, blocks] at read
      contradiction
  | case2 pending left ended =>
      exact absurd (fgets_ended (by decide) ended).1 (by decide)
  | case3 pending output left taken closes =>
      rw [receiveRest, taken] at read
      rw [receiveRest, fgets_resumable (by decide) more taken]
      simp only [closes, if_true, Option.some.injEq, Prod.mk.injEq] at read ⊢
      exact ⟨read.1, by rw [read.2]⟩
  | case4 pending output left taken goesOn ih =>
      rw [receiveRest, taken] at read
      rw [receiveRest, fgets_resumable (by decide) more taken]
      simp only [if_neg goesOn] at read ⊢
      obtain ⟨⟨later, behind⟩, recursion, out⟩ := Option.map_eq_some_iff.mp read
      rw [Prod.mk.injEq] at out
      obtain ⟨rfl, rfl⟩ := out
      rw [ih recursion]
      rfl

/-- A pass can be read in pieces. -/
theorem receivePass_resumable : Resumable (receivePass false) := by
  intro pending shown rest more read
  unfold receivePass at read ⊢
  cases first : fgets outputSize false pending with
  | none => simp [first] at read
  | some out =>
      obtain ⟨line, left⟩ := out
      rw [fgets_resumable (by decide) more first]
      rw [first] at read
      cases line with
      | none => simpa using read
      | some output =>
          dsimp only at read ⊢
          by_cases opens : opensPayload output = true
          · simp only [if_pos opens] at read ⊢
            obtain ⟨⟨later, behind⟩, recursion, out⟩ := Option.map_eq_some_iff.mp read
            rw [Prod.mk.injEq] at out
            obtain ⟨rfl, rfl⟩ := out
            rw [receiveRest_resumable more recursion]
            rfl
          · simpa [opens] using read

/-! ## Units -/

namespace Phase

/-- The bytes taken for the unit being received. -/
def taken : Phase → Text
  | .greeting taken | .receiving taken => taken
  | .selecting | .left => []

/-- The same phase with other bytes taken. -/
def withTaken (bytes : Text) : Phase → Phase
  | .greeting _ => .greeting bytes
  | .receiving _ => .receiving bytes
  | .selecting => .selecting
  | .left => .left

/-- What the client may be receiving: the initial document, or a payload. -/
def Receives (welcome : Welcome) : Phase → Text → Prop
  | .greeting _, unit => unit = welcome.text
  | .receiving _, unit => ∃ broadcast : Broadcast, unit = broadcast.text
  | .selecting, _ | .left, _ => False

/-- The bytes hold a whole unit and a whole payload behind it. -/
def ReachesFurther (welcome : Welcome) (phase : Phase) (bytes : Text) : Prop :=
  ∃ (unit : Text) (broadcast : Broadcast), phase.Receives welcome unit ∧
    unit ++ broadcast.text <+: bytes

variable {welcome : Welcome}

theorem receives_withTaken {phase : Phase} (bytes unit : Text) :
    (phase.withTaken bytes).Receives welcome unit ↔ phase.Receives welcome unit := by
  cases phase <;> rfl

/-- A stream starts with one unit at most. -/
theorem receives_unique {phase : Phase} {unit unit' stream : Text}
    (receives : phase.Receives welcome unit) (receives' : phase.Receives welcome unit')
    (starts : unit <+: stream) (starts' : unit' <+: stream) : unit = unit' := by
  cases phase with
  | greeting taken => exact Eq.trans receives (Eq.symm receives')
  | receiving taken =>
      obtain ⟨broadcast, rfl⟩ := receives
      obtain ⟨broadcast', rfl⟩ := receives'
      obtain ⟨rest, rfl⟩ := starts
      obtain ⟨rest', same⟩ := starts'
      obtain ⟨version, entries, -⟩ :=
        payloadText_append_inj broadcast'.decodable broadcast.decodable same
      rw [Broadcast.text, Broadcast.text, version, entries]
  | selecting | left => exact receives.elim

end Phase

/-- A read that moves a whole payload behind the unit being received, and leaves
nothing in the FIFO. -/
def Overreads (welcome : Welcome) (s : ClientState) (n : Nat) : Prop :=
  s.buffer = [] ∧ s.fifo.drop n = [] ∧
    s.phase.ReachesFurther welcome (s.phase.taken ++ s.fifo.take n)

/-- The condition on an action. -/
def KeepsUnitsApart (welcome : Welcome) (s : ClientState) : ClientAction → Prop
  | .read n => ¬Overreads welcome s n
  | .arrive _ | .type _ | .wake | .take => True

/-! ## What is in front of the client -/

namespace ClientState

/-- The stream from the start of the unit being received on. -/
def ahead (s : ClientState) : Text :=
  s.phase.taken ++ s.buffer ++ s.fifo ++ s.coming

/-- The client is in front of whole units. -/
def Streaming (welcome : Welcome) (s : ClientState) : Prop :=
  match s.phase with
  | .greeting _ => ∃ later, s.ahead = welcome.text ++ streamOf later
  | .receiving _ =>
      ∃ (first : Broadcast) (later : List Broadcast), s.ahead = first.text ++ streamOf later
  | .selecting => ∃ later, s.ahead = streamOf later
  | .left => True

/-- While the FIFO is empty, no further payload is complete in the buffer. -/
def Current (welcome : Welcome) (s : ClientState) : Prop :=
  s.fifo = [] → (s.phase = .selecting → ¬s.HoldsPayload) ∧
    ¬s.phase.ReachesFurther welcome (s.phase.taken ++ s.buffer)

variable {welcome : Welcome} {s : ClientState}

/-- What the reading calls do: they receive a unit that is there, or take all of it
that is. -/
theorem Streaming.take (streaming : s.Streaming welcome) (reads : ShortReads)
    {unit : Text} (receives : s.phase.Receives welcome unit) :
    ∃ unit, s.phase.Receives welcome unit ∧ unit <+: s.ahead ∧
      ((∃ left, s.phase.taken ++ s.buffer = unit ++ left ∧
          (∃ later, left ++ s.fifo ++ s.coming = streamOf later) ∧
          (takeBuffered reads s).1 = { s with phase := .selecting, buffer := left }) ∨
        (¬unit <+: s.phase.taken ++ s.buffer ∧ (takeBuffered reads s).1 =
          { s with phase := s.phase.withTaken (s.phase.taken ++ s.buffer), buffer := [] })) := by
  obtain ⟨phase, buffer, fifo, coming⟩ := s
  -- The rest of the stream behind a unit that has been received.
  have behind {bytes unit left : Text} {later : List Broadcast}
      (stream : bytes ++ fifo ++ coming = unit ++ streamOf later)
      (split : bytes = unit ++ left) : ∃ later, left ++ fifo ++ coming = streamOf later := by
    subst split
    simp only [List.append_assoc] at stream ⊢
    exact ⟨later, List.append_cancel_left stream⟩
  cases phase with
  | greeting taken =>
      obtain ⟨later, stream⟩ := streaming
      have greets (rest : Text) := run_handshake reads false welcome.role welcome.version rest
        welcome.fits
      have parts : (taken ++ buffer) ++ (fifo ++ coming) = welcome.text ++ streamOf later := by
        simpa [ahead, Phase.taken] using stream
      refine ⟨welcome.text, rfl, ⟨streamOf later, stream.symm⟩, ?_⟩
      rcases (greet_resumable reads).cases greets parts with ⟨left, split, read⟩ | ⟨short, read⟩
      · exact .inl ⟨left, split, behind stream split, by simp [takeBuffered, read]⟩
      · exact .inr ⟨short, by simp [takeBuffered, read, Phase.taken, Phase.withTaken]⟩
  | receiving taken =>
      obtain ⟨first, later, stream⟩ := streaming
      have passes (rest : Text) := receivePass_payload false first.version rest first.decodable
      have parts : (taken ++ buffer) ++ (fifo ++ coming) = first.text ++ streamOf later := by
        simpa [ahead, Phase.taken] using stream
      refine ⟨first.text, ⟨first, rfl⟩, ⟨streamOf later, stream.symm⟩, ?_⟩
      rcases receivePass_resumable.cases passes parts with ⟨left, split, read⟩ | ⟨short, read⟩
      · exact .inl ⟨left, split, behind stream split, by simp [takeBuffered, read]⟩
      · exact .inr ⟨short, by simp [takeBuffered, read, Phase.taken, Phase.withTaken]⟩
  | selecting | left => exact receives.elim

/-- Received or not, the client stays in front of whole units. -/
theorem Streaming.step_take (streaming : s.Streaming welcome) (reads : ShortReads) :
    (clientStep reads s .take).1.Streaming welcome := by
  obtain ⟨phase, buffer, fifo, coming⟩ := s
  cases phase with
  | greeting taken =>
      have receives : (Phase.greeting taken).Receives welcome welcome.text := rfl
      obtain ⟨unit, -, -, ⟨left, -, rest, read⟩ | ⟨-, read⟩⟩ := streaming.take reads receives
      · rw [clientStep, read]
        exact rest
      · rw [clientStep, read]
        obtain ⟨later, stream⟩ := streaming
        exact ⟨later, by simpa [ahead, Phase.taken, Phase.withTaken] using stream⟩
  | receiving taken =>
      obtain ⟨first, later, stream⟩ := streaming
      have receives : (Phase.receiving taken).Receives welcome first.text := ⟨first, rfl⟩
      have streaming : Streaming welcome ⟨.receiving taken, buffer, fifo, coming⟩ :=
        ⟨first, later, stream⟩
      obtain ⟨unit, -, -, ⟨left, -, rest, read⟩ | ⟨-, read⟩⟩ := streaming.take reads receives
      · rw [clientStep, read]
        exact rest
      · rw [clientStep, read]
        exact ⟨first, later, by simpa [ahead, Phase.taken, Phase.withTaken] using stream⟩
  | selecting | left => exact streaming

theorem Streaming.step (streaming : s.Streaming welcome) (reads : ShortReads)
    (action : ClientAction) : (clientStep reads s action).1.Streaming welcome := by
  obtain ⟨phase, buffer, fifo, coming⟩ := s
  cases action with
  | arrive n =>
      have same : (clientStep reads ⟨phase, buffer, fifo, coming⟩ (.arrive n)).1.ahead =
          ahead ⟨phase, buffer, fifo, coming⟩ := by
        simp [clientStep, ahead]
      cases phase with
      | greeting taken | receiving taken | selecting =>
          unfold Streaming at streaming ⊢
          rw [same]
          exact streaming
      | left => trivial
  | type input =>
      by_cases ends : phase = .selecting ∧ endsSession input = true
      · simp only [clientStep, if_pos ends]
        trivial
      · simp only [clientStep, if_neg ends]
        exact streaming
  | wake =>
      by_cases ready : phase = .selecting ∧ fifo ≠ []
      · simp only [clientStep, if_pos ready]
        obtain ⟨rfl, nonempty⟩ := ready
        obtain ⟨later, stream⟩ := streaming
        cases later with
        | nil =>
            simp only [ahead, Phase.taken, streamOf, List.map_nil, List.flatten_nil,
              List.append_eq_nil_iff] at stream
            exact absurd stream.1.2 nonempty
        | cons first later => exact ⟨first, later, stream⟩
      · simp only [clientStep, if_neg ready]
        exact streaming
  | read n =>
      cases phase with
      | greeting taken | receiving taken =>
          by_cases empty : buffer = []
          · have same : (taken ++ fifo.take n ++ fifo.drop n ++ coming) =
                taken ++ buffer ++ fifo ++ coming := by
              rw [empty, List.append_nil, List.append_assoc taken, List.take_append_drop]
            simp only [clientStep, if_pos empty]
            unfold Streaming ahead at streaming ⊢
            simp only [Phase.taken] at streaming ⊢
            rwa [same]
          · simp only [clientStep, if_neg empty]
            exact streaming
      | selecting | left => exact streaming
  | take => exact streaming.step_take reads

/-- What is left in the buffer behind a unit is what was behind it before. -/
theorem Streaming.current_take (streaming : s.Streaming welcome) (current : s.Current welcome)
    (reads : ShortReads) : (clientStep reads s .take).1.Current welcome := by
  obtain ⟨phase, buffer, fifo, coming⟩ := s
  intro drained
  by_cases busy : ∃ unit, phase.Receives welcome unit
  · obtain ⟨unit, receives⟩ := busy
    obtain ⟨unit, received, -, ⟨left, split, -, read⟩ | ⟨-, read⟩⟩ :=
      streaming.take reads receives
    · rw [clientStep, read] at drained ⊢
      refine ⟨fun _ => ?_, ?_⟩
      · rintro ⟨broadcast, complete⟩
        apply (current drained).2
        refine ⟨unit, broadcast, received, ?_⟩
        rw [split, List.prefix_append_right_inj]
        exact complete
      · rintro ⟨unit, broadcast, receives, -⟩
        exact receives
    · rw [clientStep, read] at drained ⊢
      refine ⟨fun selecting => ?_, ?_⟩
      · cases phase with
        | greeting _ | receiving _ => simp [Phase.withTaken] at selecting
        | selecting | left => exact receives.elim
      · rintro ⟨unit, broadcast, receives, complete⟩
        apply (current drained).2
        refine ⟨unit, broadcast, (Phase.receives_withTaken _ _).mp receives, ?_⟩
        cases phase with
        | greeting _ | receiving _ => simpa [Phase.withTaken, Phase.taken] using complete
        | selecting | left => exact received.elim
  · have still : clientStep reads ⟨phase, buffer, fifo, coming⟩ .take =
        (⟨phase, buffer, fifo, coming⟩, []) := by
      cases phase with
      | greeting taken => exact absurd ⟨welcome.text, rfl⟩ busy
      | receiving taken =>
          obtain ⟨first, -, -⟩ := streaming
          exact absurd ⟨first.text, first, rfl⟩ busy
      | selecting | left => rfl
    rw [still] at drained ⊢
    exact current drained

/-- A step that keeps units apart leaves nothing complete behind an empty FIFO. -/
theorem Streaming.current_step (streaming : s.Streaming welcome) (current : s.Current welcome)
    (reads : ShortReads) {action : ClientAction} (apart : KeepsUnitsApart welcome s action) :
    (clientStep reads s action).1.Current welcome := by
  obtain ⟨phase, buffer, fifo, coming⟩ := s
  cases action with
  | arrive n =>
      intro empty
      exact current (List.append_eq_nil_iff.mp empty).1
  | type input =>
      by_cases ends : phase = .selecting ∧ endsSession input = true
      · simp only [clientStep, if_pos ends]
        intro _
        constructor
        · exact fun other => by simp at other
        · rintro ⟨unit, broadcast, receives, -⟩
          exact receives
      · simp only [clientStep, if_neg ends]
        exact current
  | wake =>
      by_cases ready : phase = .selecting ∧ fifo ≠ []
      · simp only [clientStep, if_pos ready]
        exact fun empty => absurd empty ready.2
      · simp only [clientStep, if_neg ready]
        exact current
  | read n =>
      cases phase with
      | greeting taken | receiving taken =>
          by_cases empty : buffer = []
          · simp only [clientStep, if_pos empty]
            intro drained
            exact ⟨fun other => by simp at other, fun further => apart ⟨empty, drained, further⟩⟩
          · simp only [clientStep, if_neg empty]
            exact current
      | selecting | left => exact current
  | take => exact streaming.current_take current reads

/-- After a read that moves a further payload whole, the client receives its unit and
goes to sleep in front of that payload. -/
theorem Streaming.asleep_of_overreads (streaming : s.Streaming welcome) (reads : ShortReads)
    {n : Nat} (overreads : Overreads welcome s n) :
    let s' := (run (clientStep reads) s [.read n, .take]).1
    s'.Asleep ∧ s'.HoldsPayload := by
  obtain ⟨empty, drained, unit, broadcast, receives, complete⟩ := overreads
  have next := streaming.step reads (.read n)
  have moved : (clientStep reads s (.read n)).1 =
      { s with buffer := s.fifo.take n, fifo := s.fifo.drop n } := by
    unfold clientStep
    cases held : s.phase with
    | greeting _ | receiving _ => simp only [if_pos empty]
    | selecting | left =>
        rw [held] at receives
        exact receives.elim
  rw [moved] at next
  obtain ⟨unit', receives', starts, received⟩ := next.take reads receives
  have bytes : unit <+: ahead { s with buffer := s.fifo.take n, fifo := s.fifo.drop n } := by
    refine ((List.prefix_append _ _).trans complete).trans ?_
    rw [ahead, List.append_assoc _ (s.fifo.drop n)]
    exact List.prefix_append _ _
  have same : unit = unit' := Phase.receives_unique receives receives' bytes starts
  subst same
  simp only [run_cons, run_nil, moved]
  rcases received with ⟨left, split, -, read⟩ | ⟨short, -⟩
  · rw [clientStep, read]
    refine ⟨⟨rfl, drained⟩, broadcast, ?_⟩
    rw [split, List.prefix_append_right_inj] at complete
    exact complete
  · exact absurd ((List.prefix_append _ _).trans complete) short

end ClientState

/-! ## Runs -/

theorem streaming_connecting (welcome : Welcome) (broadcasts : List Broadcast) :
    (connecting welcome broadcasts).Streaming welcome :=
  ⟨broadcasts, rfl⟩

/-- The client never goes to sleep on an update that it holds, in every run whose reads
keep units apart.  Any read that does not, in such a run, is followed by a sleep on a
complete payload, if nothing else arrives before the client is back in `select`. -/
theorem never_asleep_on_update (welcome : Welcome) (broadcasts : List Broadcast)
    (reads : ShortReads) :
    (∀ actions, Meets (clientStep reads) (KeepsUnitsApart welcome)
        (connecting welcome broadcasts) actions →
      let s := (run (clientStep reads) (connecting welcome broadcasts) actions).1
      s.Asleep → ¬s.HoldsPayload) ∧
    ∀ actions n,
      let s := (run (clientStep reads) (connecting welcome broadcasts) actions).1
      let s' := (run (clientStep reads) s [.read n, .take]).1
      Overreads welcome s n → s'.Asleep ∧ s'.HoldsPayload := by
  constructor
  · intro actions meets s asleep
    have initial : (connecting welcome broadcasts).Current welcome := by
      intro _
      constructor
      · exact fun other => by simp [connecting] at other
      · rintro ⟨unit, broadcast, rfl, complete⟩
        simp [connecting, Phase.taken, Welcome.text, initialDocument] at complete
    have both := meets.history
      (fun _ s => s.Streaming welcome ∧ s.Current welcome)
      (fun _ s action apart holds =>
        ⟨holds.1.step reads action, holds.1.current_step holds.2 reads apart⟩)
      ⟨streaming_connecting welcome broadcasts, initial⟩
    exact (both.2 asleep.2).1 asleep.1
  · intro actions n s s' overreads
    have streaming := run_invariant (clientStep reads) (·.Streaming welcome)
      (fun s action holds => holds.step reads action) (streaming_connecting welcome broadcasts)
      actions
    exact streaming.asleep_of_overreads reads overreads

/-- The initial document arrives before the first update does. -/
theorem never_asleep_on_update_apart :
    let welcome : Welcome := ⟨.write, 0, [], by decide⟩
    let user : UserName := ⟨ascii "bob", by decide, by decide, by decide, by decide⟩
    let line : CommandLine := ⟨ascii "INSERT 0 hi\n", by decide, by decide, by decide⟩
    let reads : ShortReads :=
      { count := fun _ wanted available => min wanted available
        count_pos := by omega
        count_le := by omega }
    let s := (run (clientStep reads) (connecting welcome [⟨1, [⟨user, line, .success⟩]⟩])
      [.arrive welcome.text.length, .read 4096, .take]).1
    s.Asleep ∧ ¬s.HoldsPayload := by
  intro welcome user line reads s
  have asleep : s.Asleep := by
    constructor
    · decide +kernel +zetaReduce
    · decide +kernel +zetaReduce
  constructor
  · exact asleep
  · apply (never_asleep_on_update welcome [⟨1, [⟨user, line, .success⟩]⟩] reads).1 _ _ asleep
    refine ⟨trivial, ?_, trivial, trivial⟩
    rintro ⟨-, -, unit, broadcast, rfl, complete⟩
    have longer := complete.length_le
    have nonempty : 0 < broadcast.text.length := by
      have closed : 0 < endLine.length := by decide
      rw [Broadcast.text, payloadText, List.length_append]
      exact Nat.add_pos_right _ closed
    have arrived : (welcome.text ++ streamOf [⟨1, [⟨user, line, .success⟩]⟩]).take
        welcome.text.length = welcome.text := List.take_left
    simp only [connecting, clientStep, Phase.taken, List.nil_append, arrived,
      List.length_append, List.length_take] at longer
    omega

/-- The initial document and the first update in one read. -/
theorem asleep_on_first_update :
    let welcome : Welcome := ⟨.write, 0, [], by decide⟩
    let user : UserName := ⟨ascii "bob", by decide, by decide, by decide, by decide⟩
    let line : CommandLine := ⟨ascii "INSERT 0 hi\n", by decide, by decide, by decide⟩
    let reads : ShortReads :=
      { count := fun _ wanted available => min wanted available
        count_pos := by omega
        count_le := by omega }
    let s := (run (clientStep reads) (connecting welcome [⟨1, [⟨user, line, .success⟩]⟩])
      [.arrive 4096, .read 4096, .take]).1
    s.Asleep ∧ s.HoldsPayload := by
  intro welcome user line reads s
  let arrived := (run (clientStep reads) (connecting welcome [⟨1, [⟨user, line, .success⟩]⟩])
    [.arrive 4096]).1
  have then_read : s = (run (clientStep reads) arrived [.read 4096, .take]).1 := by
    simp only [s, arrived, run_cons, run_nil]
  have streaming : arrived.Streaming welcome :=
    (streaming_connecting welcome _).step reads (.arrive 4096)
  have overreads : Overreads welcome arrived 4096 :=
    ⟨rfl, by decide, welcome.text, ⟨1, [⟨user, line, .success⟩]⟩, rfl, by decide⟩
  rw [then_read]
  exact streaming.asleep_of_overreads reads overreads

end CollabMarkdown.Client
