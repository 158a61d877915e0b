import CollabMarkdown.Auth.Lookup
import CollabMarkdown.Transition.Run

/-!
# Two lookups at once

Client threads look up roles without a lock.  Each has a line buffer and a stream of
its own, but `strtok` keeps one cursor for the whole process, which may point into
the buffer of either thread.  A step is one library call of one thread, with the
code up to its next call.  Tokens are pointers, read when they are compared.
-/

namespace CollabMarkdown.Auth

open CollabMarkdown.CString
open CollabMarkdown.Command
open CollabMarkdown.Transition

/-! ## Threads -/

/-- The two client threads that log in at once. -/
inductive ThreadId where
  | first
  | second
  deriving DecidableEq, Repr

/-- The thread that is not this one. -/
def ThreadId.other : ThreadId → ThreadId
  | .first => .second
  | .second => .first

/-- A pointer into the line buffer of a thread. -/
structure Pointer where
  owner : ThreadId
  off : Nat
  deriving DecidableEq, Repr

/-- The call that a lookup makes next, with the pointers it holds. -/
inductive Phase where
  | opening
  | reading
  | trimming
  | tokenising (p : Nat)
  | secondToken (usernameS : Option Pointer)
  | thirdToken (usernameS roleS : Option Pointer)
  | comparingUser (usernameS roleS : Pointer)
  | comparingWrite (roleS : Pointer)
  | comparingRead (roleS : Pointer)
  | done (result : AuthResult)
  deriving DecidableEq, Repr

/-- A thread in `auth_lookup_user_role`: the user it looks up, the call it makes next,
what is left of the file, and its line buffer. -/
structure Lookup where
  username : Text
  phase : Phase
  rest : Text
  line : Text
  deriving DecidableEq, Repr

/-- Two threads in their lookups, and the cursor of `strtok`. -/
structure AuthState where
  lookups : ThreadId → Lookup
  cursor : Option Pointer

namespace AuthState

/-- Both threads in front of their lookups. -/
def start (users : ThreadId → Text) : AuthState where
  lookups i := ⟨users i, .opening, [], []⟩
  cursor := none

/-- A thread's lookup, replaced. -/
def set (s : AuthState) (i : ThreadId) (l : Lookup) : AuthState :=
  { s with lookups := Function.update s.lookups i l }

/-- A thread goes to its next call. -/
def setPhase (s : AuthState) (i : ThreadId) (phase : Phase) : AuthState :=
  s.set i { s.lookups i with phase }

/-- The C string that a pointer points to. -/
def deref (s : AuthState) (p : Pointer) : Text :=
  stringAt (s.lookups p.owner).line p.off

/-- One call of `strtok` at a pointer: the token, and the state with the token ended
and the cursor behind it. -/
def strtok (s : AuthState) (p : Pointer) : Option Pointer × AuthState :=
  let out := strtokAt blanks (s.lookups p.owner).line p.off
  (out.1.map (Pointer.mk p.owner),
    { s.set p.owner { s.lookups p.owner with line := out.2.2 } with
      cursor := some ⟨p.owner, out.2.1⟩ })

/-- `strtok(NULL, …)` goes on at the cursor. -/
def strtokNext (s : AuthState) : Option Pointer × AuthState :=
  match s.cursor with
  | some p => s.strtok p
  | none => (none, s)

end AuthState

/-- What `fgets` leaves in a buffer: the bytes read, their terminator, and the rest of
what was there. -/
def writeLine (buffer chunk : Text) : Text :=
  chunk ++ 0 :: buffer.drop (chunk.length + 1)

/-- One step of one thread. -/
def authAdvance (file : Option Text) (s : AuthState) (i : ThreadId) : AuthState :=
  let l := s.lookups i
  match l.phase with
  | .opening =>
      match file with
      | none => s.setPhase i (.done .ioError)
      | some text => s.set i { l with phase := .reading, rest := text }
  | .reading =>
      match fgets authLineBufSize true l.rest with
      | some (some chunk, rest) =>
          s.set i { l with phase := .trimming, rest, line := writeLine l.line chunk }
      | _ => s.setPhase i (.done .notFound)
  | .trimming =>
      let line := trimRightInPlace l.line (stringAt l.line 0).length
      let trimmed := stringAt line 0
      let p := trimLeft trimmed
      s.set i
        { l with
          line
          phase := if passedOver p then .reading else .tokenising (trimmed.length - p.length) }
  | .tokenising p =>
      let out := s.strtok ⟨i, p⟩
      out.2.setPhase i (.secondToken out.1)
  | .secondToken usernameS =>
      let out := s.strtokNext
      out.2.setPhase i (.thirdToken usernameS out.1)
  | .thirdToken usernameS roleS =>
      let out := s.strtokNext
      match usernameS, roleS, out.1 with
      | some usernameS, some roleS, none => out.2.setPhase i (.comparingUser usernameS roleS)
      | _, _, _ => out.2.setPhase i .reading
  | .comparingUser usernameS roleS =>
      s.setPhase i (if s.deref usernameS = l.username then .comparingWrite roleS else .reading)
  | .comparingWrite roleS =>
      s.setPhase i
        (if s.deref roleS = ascii "write" then .done (.ok .write) else .comparingRead roleS)
  | .comparingRead roleS =>
      s.setPhase i
        (if s.deref roleS = ascii "read" then .done (.ok .read) else .done .invalidRole)
  | .done _ => s

/-- The same as a machine without outputs. -/
def authStep (file : Option Text) (s : AuthState) (i : ThreadId) : AuthState × Unit :=
  (authAdvance file s i, ())

/-- The thread is between the first and the last of the three calls for a line. -/
def Phase.MidLine : Phase → Prop
  | .secondToken _ | .thirdToken _ _ => True
  | _ => False

/-- The next call of the thread is one of the three. -/
def Phase.Tokenises : Phase → Prop
  | .tokenising _ | .secondToken _ | .thirdToken _ _ => True
  | _ => False

instance : (phase : Phase) → Decidable phase.MidLine
  | .secondToken _ | .thirdToken _ _ => isTrue trivial
  | .opening | .reading | .trimming | .tokenising _ | .comparingUser _ _ | .comparingWrite _
  | .comparingRead _ | .done _ => isFalse id

instance : (phase : Phase) → Decidable phase.Tokenises
  | .tokenising _ | .secondToken _ | .thirdToken _ _ => isTrue trivial
  | .opening | .reading | .trimming | .comparingUser _ _ | .comparingWrite _
  | .comparingRead _ | .done _ => isFalse id

/-- A thread makes none of the three calls while the other one is between its own. -/
def TokenisesAlone (s : AuthState) (i : ThreadId) : Prop :=
  (s.lookups i).phase.Tokenises → ¬(s.lookups i.other).phase.MidLine

instance (s : AuthState) (i : ThreadId) : Decidable (TokenisesAlone s i) :=
  inferInstanceAs (Decidable (_ → _))

/-! ## Strings in the buffers -/

theorem stringAt_writeLine (buffer chunk : Text) :
    stringAt (writeLine buffer chunk) 0 = untilNul chunk := by
  rw [stringAt, List.drop_zero, writeLine]
  generalize buffer.drop (chunk.length + 1) = old
  induction chunk with
  | nil => simp [untilNul]
  | cons c chunk ih =>
      by_cases nul : c = 0
      · simp [untilNul, nul]
      · simpa [untilNul, nul] using ih

/-- The pointer that `trim_left` returns, for a string at the front of a buffer. -/
theorem stringAt_trimLeft (line : Text) :
    stringAt line ((stringAt line 0).length - (trimLeft (stringAt line 0)).length) =
      trimLeft (stringAt line 0) := by
  have lengths : (stringAt line 0).length - (trimLeft (stringAt line 0)).length =
      ((stringAt line 0).takeWhile isspace).length := by
    have whole := congrArg List.length
      (List.takeWhile_append_dropWhile (p := isspace) (l := stringAt line 0))
    rw [List.length_append] at whole
    rw [trimLeft]
    omega
  have inside : ((stringAt line 0).takeWhile isspace).length ≤ (stringAt line 0).length :=
    (List.takeWhile_prefix _).length_le
  calc
    stringAt line ((stringAt line 0).length - (trimLeft (stringAt line 0)).length)
        = stringAt line (0 + ((stringAt line 0).takeWhile isspace).length) := by
          rw [lengths, Nat.zero_add]
    _ = trimLeft (stringAt line 0) := by
          rw [stringAt_add inside, drop_length_takeWhile, trimLeft]

/-- A token of the thread's own line that ends in front of an offset. -/
def TokenBefore (line : Text) (i : ThreadId) (off : Nat) (token : Pointer) : Prop :=
  token.owner = i ∧ token.off + (stringAt line token.off).length ≤ off

/-- What a call of `strtok` at a pointer into the buffer of a thread does. -/
theorem AuthState.strtok_spec {s : AuthState} {i : ThreadId} {l : Lookup}
    (held : s.lookups i = l) (off : Nat) :
    ∃ token line' off',
      s.strtok ⟨i, off⟩ =
        (token, { lookups := Function.update s.lookups i { l with line := line' }
                  cursor := some ⟨i, off'⟩ }) ∧
      token.map (fun t => stringAt line' t.off) =
        (CString.strtok blanks (stringAt l.line off)).1 ∧
      stringAt line' off' = (CString.strtok blanks (stringAt l.line off)).2 ∧
      (∀ t, token = some t → TokenBefore line' i off' t) ∧
      ∀ t, TokenBefore l.line i off t →
        TokenBefore line' i off' t ∧ stringAt line' t.off = stringAt l.line t.off := by
  subst held
  obtain ⟨found, behind, ends, later, untouched⟩ :=
    strtokAt_spec blanks (s.lookups i).line off
  refine ⟨_, _, _, rfl, ?_, behind, ?_, ?_⟩
  · rw [← found, Option.map_map]
    rfl
  · intro t token
    obtain ⟨start, here, rfl⟩ := Option.map_eq_some_iff.mp token
    exact ⟨rfl, ends start here⟩
  · rintro t ⟨owned, before⟩
    have same := untouched t.off before
    refine ⟨⟨owned, ?_⟩, same⟩
    rw [same]
    exact before.trans later

/-! ## Lookups that are not disturbed -/

/-- The result that a lookup on its own returns from here.  Between the three calls for
a line the cursor is the thread's own. -/
def Lookup.Returns (file : Option Text) (i : ThreadId) (cursor : Option Pointer) (l : Lookup)
    (result : AuthResult) : Prop :=
  let onward (entry : Option AuthResult) := entry.getD (scanLines l.username l.rest)
  let string (t : Pointer) := stringAt l.line t.off
  match l.phase with
  | .opening => authLookupRole file l.username = result
  | .reading => onward none = result
  | .trimming => onward (scanLine l.username (stringAt l.line 0)) = result
  | .tokenising p => onward (scanEntry l.username (stringAt l.line p)) = result
  | .secondToken usernameS =>
      ∃ off, cursor = some ⟨i, off⟩ ∧
        (∀ t, usernameS = some t → TokenBefore l.line i off t) ∧
        let (roleS, s) := strtok blanks (stringAt l.line off)
        let (extra, _) := strtok blanks s
        onward (checkEntry l.username (usernameS.map string) roleS extra) = result
  | .thirdToken usernameS roleS =>
      ∃ off, cursor = some ⟨i, off⟩ ∧
        (∀ t, usernameS = some t → TokenBefore l.line i off t) ∧
        (∀ t, roleS = some t → TokenBefore l.line i off t) ∧
        let (extra, _) := strtok blanks (stringAt l.line off)
        onward (checkEntry l.username (usernameS.map string) (roleS.map string) extra) = result
  | .comparingUser usernameS roleS =>
      usernameS.owner = i ∧ roleS.owner = i ∧
        onward (checkEntry l.username (some (string usernameS)) (some (string roleS)) none) =
          result
  | .comparingWrite roleS => roleS.owner = i ∧ roleResult (string roleS) = result
  | .comparingRead roleS =>
      roleS.owner = i ∧ string roleS ≠ ascii "write" ∧ roleResult (string roleS) = result
  | .done reached => reached = result

/-- A bound on the steps that a lookup still takes. -/
def Lookup.stepsLeft (file : Option Text) (l : Lookup) : Nat :=
  match l.phase with
  | .opening => 8 * (file.getD []).length + 2
  | .reading => 8 * l.rest.length + 1
  | .trimming => 8 * l.rest.length + 8
  | .tokenising _ => 8 * l.rest.length + 7
  | .secondToken _ => 8 * l.rest.length + 6
  | .thirdToken _ _ => 8 * l.rest.length + 5
  | .comparingUser _ _ => 8 * l.rest.length + 4
  | .comparingWrite _ => 8 * l.rest.length + 3
  | .comparingRead _ => 8 * l.rest.length + 2
  | .done _ => 0

/-- What a step of a thread does, when the cursor is its own between the three calls. -/
structure OwnStep (file : Option Text) (s : AuthState) (i : ThreadId) (result : AuthResult)
    (s' : AuthState) : Prop where
  others : ∀ j, j ≠ i → s'.lookups j = s.lookups j
  cursor : ¬(s.lookups i).phase.Tokenises → s'.cursor = s.cursor
  returns : (s'.lookups i).Returns file i s'.cursor result
  stepsLeft : (s'.lookups i).stepsLeft file ≤ (s.lookups i).stepsLeft file - 1

variable {file : Option Text} {s : AuthState} {i : ThreadId} {result : AuthResult}

/-- A step that writes to the lookup of its thread alone. -/
theorem OwnStep.of_update {l : Lookup} {cursor : Option Pointer}
    (unmoved : ¬(s.lookups i).phase.Tokenises → cursor = s.cursor)
    (returns : l.Returns file i cursor result)
    (stepsLeft : l.stepsLeft file ≤ (s.lookups i).stepsLeft file - 1) :
    OwnStep file s i result { lookups := Function.update s.lookups i l, cursor } where
  others j other := Function.update_of_ne other _ _
  cursor := unmoved
  returns := by simpa using returns
  stepsLeft := by simpa using stepsLeft

theorem OwnStep.of_set {l : Lookup} (returns : l.Returns file i s.cursor result)
    (stepsLeft : l.stepsLeft file ≤ (s.lookups i).stepsLeft file - 1) :
    OwnStep file s i result (s.set i l) :=
  of_update (fun _ => rfl) returns stepsLeft

/-- A step that calls `strtok` for its thread. -/
theorem OwnStep.of_token {l l' : Lookup} {cursor : Option Pointer} (held : s.lookups i = l)
    (tokenises : l.phase.Tokenises) (returns : l'.Returns file i cursor result)
    (stepsLeft : l'.stepsLeft file ≤ l.stepsLeft file - 1) :
    OwnStep file s i result { lookups := Function.update s.lookups i l', cursor } := by
  subst held
  exact of_update (fun idle => absurd tokenises idle) returns stepsLeft

theorem setPhase_update (l : Lookup) (cursor : Option Pointer) (phase : Phase) :
    ({ lookups := Function.update s.lookups i l, cursor } : AuthState).setPhase i phase =
      { lookups := Function.update s.lookups i { l with phase }, cursor } := by
  simp [AuthState.setPhase, AuthState.set]

/-! ## The step of each phase -/

section

variable {username rest line : Text}

theorem ownStep_reading (held : s.lookups i = ⟨username, .reading, rest, line⟩)
    (returns : Lookup.Returns file i s.cursor ⟨username, .reading, rest, line⟩ result) :
    OwnStep file s i result (authAdvance file s i) := by
  simp only [authAdvance, held]
  simp only [Lookup.Returns, Option.getD_none] at returns
  rw [scanLines] at returns
  rcases read : fgets authLineBufSize true rest with _ | ⟨_ | chunk, later⟩
  · rw [read] at returns
    exact OwnStep.of_set returns (by simp [Lookup.stepsLeft])
  · rw [read] at returns
    exact OwnStep.of_set returns (by simp [Lookup.stepsLeft])
  · rw [read] at returns
    have shorter := fgets_shorter read
    apply OwnStep.of_set
    · simpa only [Lookup.Returns, stringAt_writeLine] using returns
    · simp only [held, Lookup.stepsLeft]
      omega

theorem ownStep_trimming (held : s.lookups i = ⟨username, .trimming, rest, line⟩)
    (returns : Lookup.Returns file i s.cursor ⟨username, .trimming, rest, line⟩ result) :
    OwnStep file s i result (authAdvance file s i) := by
  simp only [authAdvance, held]
  have trimmed : stringAt (trimRightInPlace line (stringAt line 0).length) 0 =
      trimRight (stringAt line 0) := stringAt_trimRightInPlace rfl
  generalize trimRightInPlace line (stringAt line 0).length = line' at trimmed ⊢
  simp only [Lookup.Returns, scanLine, ← trimmed] at returns
  by_cases passed : passedOver (trimLeft (stringAt line' 0))
  · rw [if_pos passed] at returns ⊢
    exact OwnStep.of_set returns (by simp [held, Lookup.stepsLeft])
  · rw [if_neg passed] at returns ⊢
    apply OwnStep.of_set
    · simpa only [Lookup.Returns, stringAt_trimLeft] using returns
    · simp [held, Lookup.stepsLeft]

theorem ownStep_tokenising {p : Nat} (held : s.lookups i = ⟨username, .tokenising p, rest, line⟩)
    (returns : Lookup.Returns file i s.cursor ⟨username, .tokenising p, rest, line⟩ result) :
    OwnStep file s i result (authAdvance file s i) := by
  simp only [authAdvance, held]
  obtain ⟨token, line', off, called, first, behind, before, -⟩ := s.strtok_spec held p
  rw [called, setPhase_update]
  refine OwnStep.of_token held trivial ⟨off, rfl, before, ?_⟩ (by simp [Lookup.stepsLeft])
  simp only [Lookup.Returns, scanEntry, ← behind, ← first] at returns
  exact returns

/-- The first token stays as it is while the second one is ended. -/
theorem ownStep_secondToken {usernameS : Option Pointer}
    (held : s.lookups i = ⟨username, .secondToken usernameS, rest, line⟩)
    (returns : Lookup.Returns file i s.cursor ⟨username, .secondToken usernameS, rest, line⟩
      result) :
    OwnStep file s i result (authAdvance file s i) := by
  obtain ⟨at_, cursor, ended, returns⟩ := returns
  obtain ⟨token, line', off, called, second, behind, before, kept⟩ := s.strtok_spec held at_
  simp only [authAdvance, held, AuthState.strtokNext, cursor, called, setPhase_update]
  refine OwnStep.of_token held trivial
    ⟨off, rfl, fun t first => (kept t (ended t first)).1, before, ?_⟩
    (by simp [Lookup.stepsLeft])
  have same : usernameS.map (fun t => stringAt line' t.off) =
      usernameS.map (fun t => stringAt line t.off) :=
    Option.map_congr fun t first => (kept t (ended t first)).2
  simp only [← behind, ← second] at returns
  simpa only [same] using returns

/-- So do both tokens while a third one is looked for. -/
theorem ownStep_thirdToken {usernameS roleS : Option Pointer}
    (held : s.lookups i = ⟨username, .thirdToken usernameS roleS, rest, line⟩)
    (returns : Lookup.Returns file i s.cursor ⟨username, .thirdToken usernameS roleS, rest, line⟩
      result) :
    OwnStep file s i result (authAdvance file s i) := by
  obtain ⟨at_, cursor, userEnded, roleEnded, returns⟩ := returns
  obtain ⟨token, line', off, called, third, -, -, kept⟩ := s.strtok_spec held at_
  simp only [authAdvance, held, AuthState.strtokNext, cursor, called, setPhase_update]
  simp only [← third] at returns
  rcases usernameS with _ | user
  · exact OwnStep.of_token held trivial returns (by simp [Lookup.stepsLeft])
  rcases roleS with _ | role
  · exact OwnStep.of_token held trivial returns (by simp [Lookup.stepsLeft])
  rcases token with _ | extra
  · obtain ⟨⟨userOwned, -⟩, userSame⟩ := kept user (userEnded user rfl)
    obtain ⟨⟨roleOwned, -⟩, roleSame⟩ := kept role (roleEnded role rfl)
    refine OwnStep.of_token held trivial ⟨userOwned, roleOwned, ?_⟩
      (by simp [Lookup.stepsLeft])
    simp only [userSame, roleSame]
    exact returns
  · exact OwnStep.of_token held trivial returns (by simp [Lookup.stepsLeft])

end

/-- A step of a lookup on its own account. -/
theorem authAdvance_ownStep (returns : (s.lookups i).Returns file i s.cursor result) :
    OwnStep file s i result (authAdvance file s i) := by
  rcases held : s.lookups i with ⟨username, phase, rest, line⟩
  rw [held] at returns
  cases phase with
  | reading => exact ownStep_reading held returns
  | trimming => exact ownStep_trimming held returns
  | tokenising p => exact ownStep_tokenising held returns
  | secondToken usernameS => exact ownStep_secondToken held returns
  | thirdToken usernameS roleS => exact ownStep_thirdToken held returns
  | opening =>
      simp only [authAdvance, held]
      cases file with
      | none => exact OwnStep.of_set returns (by simp [held, Lookup.stepsLeft])
      | some text => exact OwnStep.of_set returns (by simp [held, Lookup.stepsLeft])
  | comparingUser usernameS roleS =>
      obtain ⟨userOwned, roleOwned, returns⟩ := returns
      simp only [authAdvance, held, AuthState.deref, AuthState.setPhase, userOwned]
      simp only [checkEntry] at returns
      by_cases found : stringAt line usernameS.off = username
      · rw [if_pos found] at returns ⊢
        exact OwnStep.of_set ⟨roleOwned, returns⟩ (by simp [held, Lookup.stepsLeft])
      · rw [if_neg found] at returns ⊢
        exact OwnStep.of_set returns (by simp [held, Lookup.stepsLeft])
  | comparingWrite roleS =>
      obtain ⟨owned, returns⟩ := returns
      simp only [authAdvance, held, AuthState.deref, AuthState.setPhase, owned]
      by_cases write : stringAt line roleS.off = ascii "write"
      · rw [if_pos write]
        refine OwnStep.of_set ?_ (by simp [Lookup.stepsLeft])
        rw [← returns, roleResult, parseRole, if_pos write]
        rfl
      · rw [if_neg write]
        exact OwnStep.of_set ⟨owned, write, returns⟩ (by simp [held, Lookup.stepsLeft])
  | comparingRead roleS =>
      obtain ⟨owned, other, returns⟩ := returns
      simp only [authAdvance, held, AuthState.deref, AuthState.setPhase, owned]
      rw [roleResult, parseRole, if_neg other] at returns
      by_cases read : stringAt line roleS.off = ascii "read"
      · rw [if_pos read] at returns ⊢
        exact OwnStep.of_set returns (by simp [Lookup.stepsLeft])
      · rw [if_neg read] at returns ⊢
        exact OwnStep.of_set returns (by simp [Lookup.stepsLeft])
  | done reached =>
      have still : authAdvance file s i = s := by simp only [authAdvance, held]
      rw [still]
      exact ⟨fun _ _ => rfl, fun _ => rfl, held ▸ returns, by simp [held, Lookup.stepsLeft]⟩

/-! ## Runs -/

/-- Both lookups go on as if alone. -/
def AuthState.Undisturbed (file : Option Text) (results : ThreadId → AuthResult)
    (s : AuthState) : Prop :=
  ∀ i, (s.lookups i).Returns file i s.cursor (results i)

theorem ThreadId.eq_other {i j : ThreadId} (different : j ≠ i) : j = i.other := by
  cases i <;> cases j <;> first | rfl | exact absurd rfl different

/-- Outside the three calls a lookup does not depend on the cursor. -/
theorem Lookup.Returns.of_cursor {l : Lookup} {cursor cursor' : Option Pointer}
    (returns : l.Returns file i cursor result)
    (same : l.phase.MidLine → cursor' = cursor) : l.Returns file i cursor' result := by
  rcases l with ⟨username, phase, rest, line⟩
  cases phase with
  | secondToken _ | thirdToken _ _ =>
      rw [same trivial]
      exact returns
  | _ => exact returns

/-- A step that tokenises alone leaves both lookups undisturbed. -/
theorem AuthState.Undisturbed.step {results : ThreadId → AuthResult}
    (undisturbed : s.Undisturbed file results) (alone : TokenisesAlone s i) :
    (authAdvance file s i).Undisturbed file results := by
  have own := authAdvance_ownStep (undisturbed i)
  intro j
  by_cases same : j = i
  · subst same
    exact own.returns
  · rw [own.others j same]
    apply (undisturbed j).of_cursor
    intro midLine
    apply own.cursor
    intro tokenises
    exact alone tokenises (ThreadId.eq_other same ▸ midLine)

theorem stepsLeft_step {results : ThreadId → AuthResult}
    (undisturbed : s.Undisturbed file results) (i j : ThreadId) :
    ((authAdvance file s i).lookups j).stepsLeft file ≤
      (s.lookups j).stepsLeft file - [i].count j := by
  have own := authAdvance_ownStep (undisturbed i)
  by_cases same : j = i
  · subst same
    simpa using own.stepsLeft
  · rw [own.others j same]
    simp [Ne.symm same]

theorem Lookup.done_of_stepsLeft {l : Lookup} (none : l.stepsLeft file = 0) :
    ∃ r, l.phase = .done r := by
  rcases l with ⟨username, phase, rest, line⟩
  cases phase with
  | done r => exact ⟨r, rfl⟩
  | _ => simp [Lookup.stepsLeft] at none

/-- Two lookups in any order of their calls.  While no thread tokenises between the
calls of the other one for a line, a lookup that has returned has the result of a
lookup on its own, and one that has taken enough steps has returned. -/
theorem lookup_as_if_alone (file : Option Text) (users : ThreadId → Text)
    (schedule : List ThreadId)
    (alone : Meets (authStep file) TokenisesAlone (AuthState.start users) schedule)
    (i : ThreadId) :
    let s := (run (authStep file) (AuthState.start users) schedule).1
    (∀ r, (s.lookups i).phase = .done r → r = authLookupRole file (users i)) ∧
      (8 * (file.getD []).length + 2 ≤ schedule.count i →
        (s.lookups i).phase = .done (authLookupRole file (users i))) := by
  let results j := authLookupRole file (users j)
  let bound := 8 * (file.getD []).length + 2
  have initial : (AuthState.start users).Undisturbed file results := fun _ => rfl
  obtain ⟨undisturbed, -, left⟩ := run_forecast (authStep file)
    (fun _ s rest => s.Undisturbed file results ∧ Meets (authStep file) TokenisesAlone s rest ∧
      (s.lookups i).stepsLeft file - rest.count i ≤ bound - schedule.count i)
    (by
      rintro - s j rest ⟨undisturbed, ⟨now, later⟩, left⟩
      refine ⟨undisturbed.step now, later, ?_⟩
      have fewer := stepsLeft_step undisturbed j i
      rw [List.count_cons] at left
      rw [List.count_singleton] at fewer
      simp only [authStep]
      omega)
    schedule ⟨initial, alone, le_rfl⟩
  have agrees (r : AuthResult)
      (returned : ((run (authStep file) (AuthState.start users) schedule).1.lookups i).phase =
        .done r) : r = results i := by
    have returns := undisturbed i
    rw [Lookup.Returns, returned] at returns
    exact returns
  constructor
  · exact agrees
  · intro enough
    obtain ⟨r, returned⟩ := Lookup.done_of_stepsLeft
      (Nat.le_zero.mp (left.trans (Nat.sub_eq_zero_of_le enough).le))
    rw [returned, agrees r returned]

/-- Two lookups, the first between two lines of the second. -/
theorem lookup_as_if_alone_between :
    let file := some (ascii "ryan read\ndaniel write\n")
    let users (i : ThreadId) := if i = .first then ascii "ryan" else ascii "daniel"
    let schedule : List ThreadId :=
      List.replicate 8 .second ++ List.replicate 9 .first ++ List.replicate 7 .second
    Meets (authStep file) TokenisesAlone (AuthState.start users) schedule ∧
      ∀ i, ((run (authStep file) (AuthState.start users) schedule).1.lookups i).phase =
        .done (authLookupRole file (users i)) := by
  intro file users schedule
  have alone : Meets (authStep file) TokenisesAlone (AuthState.start users) schedule := by
    decide +kernel +zetaReduce
  have finished (i : ThreadId) : ∃ r,
      ((run (authStep file) (AuthState.start users) schedule).1.lookups i).phase = .done r := by
    cases i with
    | first => exact ⟨.ok .read, by decide +kernel +zetaReduce⟩
    | second => exact ⟨.ok .write, by decide +kernel +zetaReduce⟩
  constructor
  · exact alone
  · intro i
    obtain ⟨agrees, -⟩ := lookup_as_if_alone file users schedule alone i
    obtain ⟨r, returned⟩ := finished i
    rw [returned, agrees r returned]

/-- A thread on the line of a writer tokenises between the first two calls of another
thread on the line of a reader.  The reader is granted `write`. -/
theorem reader_granted_write :
    let file := some (ascii "ryan read\ndaniel write\n")
    let users (i : ThreadId) := if i = .first then ascii "ryan" else ascii "daniel"
    let schedule : List ThreadId :=
      List.replicate 9 .second ++ List.replicate 4 .first ++ [.second] ++
        List.replicate 4 .first
    let s := (run (authStep file) (AuthState.start users) schedule).1
    (s.lookups .first).phase = .done (.ok .write) ∧
      authLookupRole file (users .first) = .ok .read := by
  intro file users schedule s
  have granted : (s.lookups .first).phase = .done (.ok .write) := by decide +kernel +zetaReduce
  have read : fgets authLineBufSize true (ascii "ryan read\ndaniel write\n") =
      some (some (ascii "ryan read\n"), ascii "daniel write\n") := by decide +kernel +zetaReduce
  constructor
  · exact granted
  · simp only [file, users, authLookupRole]
    rw [scanLines, read]
    rfl

end CollabMarkdown.Auth
