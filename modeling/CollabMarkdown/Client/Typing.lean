import CollabMarkdown.Client.Select
import CollabMarkdown.Process.CommandLines
import CollabMarkdown.Process.Login

/-!
# From the keyboard to the document

The client sends its name and then what it reads from its standard input, a buffer of 512
bytes at a time and no further than a NUL.  The thread reads the name, and then a buffer
of 512 bytes at a time.
-/

namespace CollabMarkdown.Client

open CollabMarkdown.CString
open CollabMarkdown.Command
open CollabMarkdown.Core
open CollabMarkdown.Markdown
open CollabMarkdown.Process

/-! ## What the client sends -/

/-- The size of the buffer for a line of standard input. -/
def inputSize : Nat := 512

/-- The branch of the loop for the standard input: what `fputs` sends of each read, up to
and with a line that ends the session. -/
def forwardLoop (typed : Text) : List Text :=
  match _read : fgets inputSize true typed with
  | none | some (none, _) => []
  | some (some input, rest) =>
      if endsSession (untilNul input) then
        [untilNul input]
      else
        untilNul input :: forwardLoop rest
termination_by typed.length
decreasing_by exact fgets_shorter _read

/-- What the client writes to its thread: the name, and some lines. -/
def sends (username : Text) (lines : List Text) : Text :=
  username ++ newline :: lines.flatten

theorem endsSession_eq_isQuit (input : Text) : endsSession input = isQuit input := by
  simp [endsSession, isQuit, beq_eq_decide]

theorem forwardLoop_of_read {typed input rest : Text}
    (read : fgets inputSize true typed = some (some input, rest)) :
    forwardLoop typed =
      if isQuit (untilNul input) then [untilNul input]
      else untilNul input :: forwardLoop rest := by
  rw [forwardLoop, read]
  simp only [endsSession_eq_isQuit]

/-- The lines sent are the first chunks typed, up to a NUL. -/
theorem forwardLoop_chunks (typed : Text) :
    forwardLoop typed <+: (chunks inputSize typed).map untilNul := by
  induction typed using forwardLoop.induct with
  | case1 typed blocked =>
      rw [forwardLoop, blocked]
      exact List.nil_prefix
  | case2 typed rest ended =>
      rw [forwardLoop, ended]
      exact List.nil_prefix
  | case3 typed input rest read quit =>
      rw [endsSession_eq_isQuit] at quit
      rw [forwardLoop_of_read read, if_pos quit, chunks_of_read read, List.map_cons]
      exact List.prefix_append [_] _
  | case4 typed input rest read goesOn ih =>
      rw [endsSession_eq_isQuit] at goesOn
      rw [forwardLoop_of_read read, if_neg goesOn, chunks_of_read read, List.map_cons]
      exact (List.prefix_cons_inj _).mpr ih

/-- Only the last line sent can end the session. -/
theorem not_isQuit_of_mem_dropLast (typed : Text) :
    ∀ line ∈ (forwardLoop typed).dropLast, isQuit line = false := by
  induction typed using forwardLoop.induct with
  | case1 typed blocked =>
      rw [forwardLoop, blocked]
      simp
  | case2 typed rest ended =>
      rw [forwardLoop, ended]
      simp
  | case3 typed input rest read quit =>
      rw [endsSession_eq_isQuit] at quit
      rw [forwardLoop_of_read read, if_pos quit]
      simp
  | case4 typed input rest read goesOn ih =>
      rw [endsSession_eq_isQuit] at goesOn
      rw [forwardLoop_of_read read, if_neg goesOn]
      cases later : forwardLoop rest with
      | nil => simp
      | cons next others =>
          rw [List.dropLast_cons_of_ne_nil (by simp), ← later]
          exact List.forall_mem_cons.mpr ⟨by simpa using goesOn, ih⟩

/-! ## Bytes cut off by a NUL -/

/-- None of the chunks that the lines were made from begins with a NUL, and none but the
last holds one. -/
structure Intact (typed : Text) (lines : List Text) : Prop where
  noNul : ∀ chunk ∈ ((chunks inputSize typed).take lines.length).dropLast, 0 ∉ chunk
  nonempty : ∀ chunk ∈ (chunks inputSize typed).take lines.length, chunk.head? ≠ some 0

theorem untilNul_ne_nil_iff {chunk : Text} (nonempty : chunk ≠ []) :
    untilNul chunk ≠ [] ↔ chunk.head? ≠ some 0 := by
  obtain ⟨c, rest, rfl⟩ := List.exists_cons_of_ne_nil nonempty
  by_cases zero : c = 0 <;> simp [untilNul, zero]

theorem untilNul_eq_self_iff {chunk : Text} : untilNul chunk = chunk ↔ 0 ∉ chunk := by
  constructor
  · intro same inside
    have stops := List.takeWhile_eq_self_iff.mp same 0 inside
    simp at stops
  · exact untilNul_of_notMem

section

variable {typed : Text} {lines : List Text}

/-- What was sent, from what was typed. -/
theorem lines_eq_map (sent : lines <+: forwardLoop typed) :
    lines = ((chunks inputSize typed).take lines.length).map untilNul := by
  have taken := List.prefix_iff_eq_take.mp (sent.trans (forwardLoop_chunks typed))
  rwa [← List.map_take] at taken

theorem cut_typed (typed : Text) (n : Nat) : Cut inputSize ((chunks inputSize typed).take n) :=
  (cut_chunks (by decide) typed).take n

/-- The lines can be read as they were sent exactly when no NUL has cut them. -/
theorem cut_iff_intact (sent : lines <+: forwardLoop typed) :
    Cut inputSize lines ↔ Intact typed lines := by
  have cut := cut_typed typed lines.length
  have isPrefix (chunk : Text) : untilNul chunk <+: chunk := List.takeWhile_prefix _
  have told := cut_map_iff cut isPrefix
  rw [← lines_eq_map sent] at told
  rw [told]
  constructor
  · rintro ⟨whole, nonempty⟩
    exact ⟨fun chunk member => untilNul_eq_self_iff.mp (whole chunk member),
      fun chunk member => (untilNul_ne_nil_iff (cut.isChunk chunk member).nonempty).mp
        (nonempty chunk member)⟩
  · rintro ⟨noNul, nonempty⟩
    exact ⟨fun chunk member => untilNul_eq_self_iff.mpr (noNul chunk member),
      fun chunk member => (untilNul_ne_nil_iff (cut.isChunk chunk member).nonempty).mpr
        (nonempty chunk member)⟩

theorem noNul_of_sent (sent : lines <+: forwardLoop typed) : ∀ line ∈ lines, 0 ∉ line := by
  rw [lines_eq_map sent]
  intro line member inside
  obtain ⟨chunk, -, rfl⟩ := List.mem_map.mp member
  have stops := List.mem_takeWhile_imp inside
  simp at stops

theorem isChunk_of_sent (sent : lines <+: forwardLoop typed) :
    ∀ line ∈ lines, line ≠ [] → IsChunk commandLineSize line := by
  rw [lines_eq_map sent]
  intro line member nonempty
  obtain ⟨chunk, among, rfl⟩ := List.mem_map.mp member
  exact ((cut_typed typed lines.length).isChunk chunk among).beginning nonempty
    (List.takeWhile_prefix _)

theorem goesOn_of_sent (sent : lines <+: forwardLoop typed) :
    ∀ line ∈ lines.dropLast, isQuit line = false := by
  intro line member
  apply not_isQuit_of_mem_dropLast typed
  obtain ⟨more, split⟩ := sent
  rw [← split, List.dropLast_append]
  split
  · exact member
  · exact List.mem_append_left _ (List.dropLast_subset _ member)

end

/-! ## What the thread reads -/

/-- The loop takes the chunks of a stream up to the one that ends the session. -/
theorem commandLoop_eq {stream : Text} (noNul : 0 ∉ stream) :
    commandLoop stream = ((chunks commandLineSize stream).takeWhile (!isQuit ·),
      (chunks commandLineSize stream).any isQuit) := by
  induction stream using commandLoop.induct with
  | case1 stream blocked => simp [fgets] at blocked
  | case2 stream rest ended =>
      rw [(fgets_ended (by decide) ended).2, commandLoop_nil, chunks_nil]
      rfl
  | case3 stream buffer rest read quit =>
      have split := (fgets_consumes read).2
      have whole : untilNul buffer = buffer :=
        untilNul_of_notMem fun member => noNul (split ▸ List.mem_append_left _ member)
      rw [commandLoop_of_read read, if_pos quit, chunks_of_read read]
      rw [whole] at quit
      simp [quit]
  | case4 stream buffer rest read goesOn ih =>
      have split := (fgets_consumes read).2
      have whole : untilNul buffer = buffer :=
        untilNul_of_notMem fun member => noNul (split ▸ List.mem_append_left _ member)
      have later := ih fun member => noNul (split ▸ List.mem_append_right _ member)
      rw [commandLoop_of_read read, if_neg goesOn, chunks_of_read read, later]
      rw [whole] at goesOn ⊢
      simp [goesOn]

theorem noNul_flatten {lines : List Text} (noNul : ∀ line ∈ lines, 0 ∉ line) :
    0 ∉ lines.flatten := by
  intro member
  obtain ⟨line, among, inside⟩ := List.mem_flatten.mp member
  exact noNul line among inside

/-- Only the last line can end the session, so those in front of it are executed. -/
theorem takeWhile_concat {front : List Text} {last : Text}
    (goesOn : ∀ line ∈ front, isQuit line = false) :
    (front ++ [last]).takeWhile (!isQuit ·) = front ++ [last].takeWhile (!isQuit ·) :=
  List.takeWhile_append_of_pos fun line member => by simp [goesOn line member]

/-- The thread takes from the stream the lines it was made of exactly when these could be
chunks. -/
theorem commandLoop_flatten_iff {lines : List Text} (noNul : ∀ line ∈ lines, 0 ∉ line)
    (isChunk : ∀ line ∈ lines, line ≠ [] → IsChunk commandLineSize line)
    (goesOn : ∀ line ∈ lines.dropLast, isQuit line = false) :
    (commandLoop lines.flatten).1 = lines.takeWhile (!isQuit ·) ↔ Cut commandLineSize lines := by
  rw [commandLoop_eq (noNul_flatten noNul)]
  constructor
  · intro same
    have cut : Cut commandLineSize (chunks commandLineSize lines.flatten) :=
      cut_chunks (by decide) _
    rcases List.eq_nil_or_concat' lines with rfl | ⟨front, last, rfl⟩
    · exact ⟨by simp, by simp⟩
    · rw [List.dropLast_concat] at goesOn
      simp only [takeWhile_concat goesOn] at same
      have taken : front ++ [last].takeWhile (!isQuit ·) <+: chunks commandLineSize
          (front ++ [last]).flatten := same ▸ List.takeWhile_prefix _
      obtain ⟨more, split⟩ := taken
      rw [List.append_assoc] at split
      have all := flatten_chunks (by decide : 1 < commandLineSize) (front ++ [last]).flatten
      rw [← split] at cut all
      cases quit : isQuit last with
      | false => exact cut.concat (by simp [quit]) (cut.isChunk last (by simp [quit]))
      | true =>
          have nonempty : last ≠ [] := by
            rintro rfl
            contradiction
          refine cut.concat ?_ (isChunk last (by simp) nonempty)
          intro nothing
          rw [nothing, List.append_nil, List.flatten_append, List.flatten_singleton] at all
          exact nonempty (List.self_eq_append_right.mp all)
  · intro cut
    rw [chunks_flatten cut]

/-- A newline in front is one command more. -/
theorem commandLoop_newline_ne (lines : List Text) :
    (commandLoop (newline :: lines.flatten)).1 ≠ lines.takeWhile (!isQuit ·) := by
  have step (rest : Text) :
      (commandLoop (newline :: rest)).1 = [newline] :: (commandLoop rest).1 := by
    have line := commandLoop_line ⟨[], by simp, by simp⟩ rest (by decide)
    rw [if_neg (by decide)] at line
    exact congrArg Prod.fst line
  induction lines with
  | nil => simp [step]
  | cons line rest ih =>
      intro same
      rw [step, List.takeWhile_cons] at same
      split at same
      · rw [List.cons.injEq] at same
        obtain ⟨rfl, later⟩ := same
        rw [List.flatten_cons, List.singleton_append] at later
        exact ih later
      · contradiction

/-! ## A session -/

/-- The session is the one that was typed: under the name given, each line sent is one
command, and the line that ends the session ends it. -/
structure AsTyped (username : Text) (lines : List Text) (clients : ThreadId → ClientInfo)
    (t : ThreadId) (ledger : Process.Ledger) (sys : System) : Prop where
  named : (clients t).username.val = username
  executed : linesOf t ledger.executions = lines.takeWhile (!isQuit ·)
  stops : lines.any isQuit = true → (sys.threads t).phase.reading = false

/-- A session is the one that was typed exactly when the name is one line and fits its
buffer, no chunk typed begins with a NUL, and none but the last holds one. -/
theorem session_as_typed_iff (clients : ThreadId → ClientInfo) (addr : DocAddr)
    (others : OtherOps addr) (actions : List Action) (t : ThreadId)
    {username typed stream : Text} {lines : List Text} {closed : Bool} (noNul : 0 ∉ username)
    (sent : lines <+: forwardLoop typed)
    (login : readLineStripNewline usernameBufSize closed (sends username lines) =
      some (some (clients t).username.val, stream))
    (wrote : sentBy t actions = stream) (closesLast : ClosesLast t actions)
    (rest : AtRest t (ledgerReached clients addr others actions)
      (systemReached clients addr others actions)) :
    AsTyped username lines clients t (ledgerReached clients addr others actions)
        (systemReached clients addr others actions) ↔
      newline ∉ username ∧ username.length < usernameBufSize - 1 ∧ Intact typed lines := by
  obtain ⟨executed, stops⟩ := executed_of_atRest clients addr others actions t closesLast rest
  rw [wrote] at executed stops
  rw [← and_assoc, ← cut_iff_intact sent]
  have told := commandLoop_flatten_iff (noNul_of_sent sent) (isChunk_of_sent sent)
    (goesOn_of_sent sent)
  rcases login_cases (by decide) noNul login with ⟨fits, named, rfl⟩ | ⟨fails, other⟩
  · constructor
    · intro asTyped
      exact ⟨fits, told.mp (executed.symm.trans asTyped.executed)⟩
    · rintro ⟨-, cut⟩
      refine ⟨named, executed.trans (told.mpr cut), fun quits => stops ?_⟩
      have back : chunks commandLineSize lines.flatten = lines := chunks_flatten cut
      rw [commandLoop_eq (noNul_flatten (noNul_of_sent sent)), back]
      exact quits
  · constructor
    · intro asTyped
      rcases other with renamed | rfl
      · exact absurd asTyped.named renamed
      · exact absurd (executed.symm.trans asTyped.executed) (commandLoop_newline_ne lines)
    · rintro ⟨fits, -⟩
      exact absurd fits fails

/-- A session of two lines, and a third that is not sent. -/
theorem session_as_typed_iff_quit :
    let username := ascii "ann"
    let typed := ascii "INSERT 0 ab\nQUIT\nDEL 0 1\n"
    let lines := [ascii "INSERT 0 ab\n", ascii "QUIT\n"]
    let actions : List Action :=
      [.step 0, .send 0 (ascii "INSERT 0 ab\nQUI"), .step 0, .step 0, .send 0 (ascii "T\n"),
        .hangUp 0, .step 0]
    let ledger := ledgerReached soleWriter 1 ⟨[], rfl⟩ actions
    let sys := systemReached soleWriter 1 ⟨[], rfl⟩ actions
    AsTyped username lines soleWriter 0 ledger sys ↔
      newline ∉ username ∧ username.length < usernameBufSize - 1 ∧ Intact typed lines := by
  have first : fgets inputSize true (ascii "INSERT 0 ab\nQUIT\nDEL 0 1\n") =
      some (some (ascii "INSERT 0 ab\n"), ascii "QUIT\nDEL 0 1\n") := by decide
  have second : fgets inputSize true (ascii "QUIT\nDEL 0 1\n") =
      some (some (ascii "QUIT\n"), ascii "DEL 0 1\n") := by decide
  have sent : [ascii "INSERT 0 ab\n", ascii "QUIT\n"] <+:
      forwardLoop (ascii "INSERT 0 ab\nQUIT\nDEL 0 1\n") := by
    rw [forwardLoop_of_read first, if_neg (by decide), forwardLoop_of_read second,
      if_pos (by decide)]
    decide
  have login : readLineStripNewline usernameBufSize false
      (sends (ascii "ann") [ascii "INSERT 0 ab\n", ascii "QUIT\n"]) =
        some (some (ascii "ann"), ascii "INSERT 0 ab\nQUIT\n") := by decide
  exact session_as_typed_iff soleWriter 1 ⟨[], rfl⟩ _ 0 (by decide) sent login (by decide)
    (by simp [ClosesLast, sentBy]) ⟨by decide, .inr (by decide)⟩

end CollabMarkdown.Client
