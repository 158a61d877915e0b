import CollabMarkdown.Auth.Lookup
import CollabMarkdown.CString.Fields
import CollabMarkdown.Sequence.Answers

/-!
# The entries of a roles file

An entry is a line of two words, a username and a role, and the first entry of a user
decides a lookup.  But a lookup reads the file in chunks of at most 511 bytes and takes
each of them for a line.  It goes by the lines exactly if that makes no difference to the
first line with something to say about the user.
-/

namespace CollabMarkdown.Auth

open CollabMarkdown.CString
open CollabMarkdown.Command
open CollabMarkdown.Markdown (lines lines_cases)
open CollabMarkdown.Sequence

/-! ## Lookups by lines -/

/-- The username and the role on a line, which is trimmed first.  A blank line, a comment,
and a line that is not two words have none. -/
def lineEntry (line : Text) : Option (Text × Text) :=
  let p := trimLeft (trimRight line)
  if passedOver p then none
  else
    match fields blanks p with
    | [usernameS, roleS] => some (usernameS, roleS)
    | _ => none

/-- The role that a line gives a user, if it is an entry of that user. -/
def entryRole (username line : Text) : Option Text :=
  (lineEntry line).bind fun entry => if entry.1 = username then some entry.2 else none

/-- The first line that is an entry of the user, by its number, and the role it gives. -/
def firstEntry (username text : Text) : Option (Nat × Text) :=
  firstAnswer (entryRole username) (lines text)

/-- The value a lookup returns and what `*out_role` holds then, if it held `outRole`
before, from the role that decides. -/
def outcome (outRole : UserRole) : Option Text → Int × UserRole
  | none => (-1, outRole)
  | some roleS =>
      match parseRole roleS with
      | none => (-2, outRole)
      | some role => (0, role)

/-! ## Lookups in the source -/

/-- `auth_lookup_role` with its out parameter: the value it returns, and what
`*out_role` holds then if it held `outRole` before. -/
def authLookupRoleInto (file : Option Text) (username : Text) (outRole : UserRole) :
    Int × UserRole :=
  match authLookupRole file username with
  | .ok role => (0, role)
  | .notFound => (-1, outRole)
  | .invalidRole => (-2, outRole)
  | .ioError => (-3, outRole)

/-- How the loop over the file ends: the lines it has read to their ends before, and the
result, unless it comes to the end of the file. -/
def decision (username pending : Text) : Option (Nat × AuthResult) :=
  match _read : fgets authLineBufSize true pending with
  | some (some line, rest) =>
      match scanLine username (untilNul line) with
      | some result => some (0, result)
      | none => (decision username rest).map (Prod.map (· + line.count newline) id)
  | _ => none
termination_by pending.length
decreasing_by exact fgets_shorter _read

theorem scanLines_eq (username pending : Text) :
    scanLines username pending = ((decision username pending).map Prod.snd).getD .notFound := by
  rw [scanLines, decision]
  rcases read : fgets authLineBufSize true pending with _ | ⟨_ | line, rest⟩
  · rfl
  · rfl
  · have shorter := fgets_shorter read
    have later := scanLines_eq username rest
    simp only
    rw [later]
    cases scanLine username (untilNul line) with
    | some result => rfl
    | none => cases decision username rest <;> rfl
termination_by pending.length

/-- A lookup goes by the lines of the file: it stops in the line that is the first entry
of the user, if there is one, and its result is what that line says. -/
structure FollowsLines (text username : Text) : Prop where
  stops : (decision username text).map Prod.fst = (firstEntry username text).map Prod.fst
  returns : ∀ outRole, authLookupRoleInto (some text) username outRole =
    outcome outRole ((firstEntry username text).map Prod.snd)

/-- The role that a line gives a user when its chunks are taken for lines. -/
def chunkRole (username line : Text) : Option Text :=
  (lineChunks (authLineBufSize - 1) line).findSome? (entryRole username)

/-- A line has something to say about a user, as it is or in a chunk. -/
def speaks (username line : Text) : Bool :=
  (chunkRole username line).isSome || (entryRole username line).isSome

/-! ## One line -/

/-- The three calls of `strtok` accept a line of exactly two words. -/
theorem scanEntry_eq (username p : Text) :
    scanEntry username p =
      match fields blanks p with
      | [usernameS, roleS] => if usernameS = username then some (roleResult roleS) else none
      | _ => none := by
  obtain ⟨first, rest⟩ := strtok_fields blanks p
  obtain ⟨second, rest'⟩ := strtok_fields blanks (strtok blanks p).2
  obtain ⟨third, -⟩ := strtok_fields blanks (strtok blanks (strtok blanks p).2).2
  rw [rest', rest] at third
  rw [rest] at second
  simp only [scanEntry, first, second, third]
  rcases fields blanks p with _ | ⟨a, _ | ⟨b, _ | ⟨c, more⟩⟩⟩ <;> rfl

/-- A line decides if it is an entry of the user. -/
theorem scanLine_eq (username line : Text) :
    scanLine username line = (entryRole username line).map roleResult := by
  unfold scanLine entryRole lineEntry
  by_cases passed : passedOver (trimLeft (trimRight line)) = true
  · simp only [if_pos passed]
    rfl
  · simp only [if_neg passed, scanEntry_eq]
    rcases fields blanks (trimLeft (trimRight line)) with _ | ⟨a, _ | ⟨b, _ | ⟨c, more⟩⟩⟩
    · rfl
    · rfl
    · by_cases named : a = username <;> simp [named]
    · rfl

/-- A newline at its end makes no difference to a line. -/
theorem entryRole_newline (username line : Text) :
    entryRole username (line ++ [newline]) = entryRole username line := by
  have trimmed : trimRight (line ++ [newline]) = trimRight line :=
    List.rdropWhile_concat_pos _ _ _ (by decide)
  rw [entryRole, entryRole, lineEntry, lineEntry, trimmed]

/-- A line that fits the buffer is its only chunk. -/
theorem chunkRole_of_fits (username : Text) {line : Text}
    (fits : line.length < authLineBufSize - 1) :
    chunkRole username line = entryRole username line := by
  rw [chunkRole, lineChunks_of_fits fits, List.findSome?_cons, List.findSome?_nil,
    entryRole_newline]
  cases entryRole username line <;> rfl

theorem chunkRole_of_overlong (username : Text) {line : Text}
    (overlong : authLineBufSize - 1 ≤ line.length) :
    chunkRole username line = (entryRole username (line.take (authLineBufSize - 1))).or
      (chunkRole username (line.drop (authLineBufSize - 1))) := by
  rw [chunkRole, lineChunks_of_overlong (by decide) overlong, List.findSome?_cons, chunkRole]
  cases entryRole username (line.take (authLineBufSize - 1)) <;> rfl

/-! ## The loop -/

theorem decision_of_read {username pending chunk rest : Text} (noNul : 0 ∉ chunk)
    (read : fgets authLineBufSize true pending = some (some chunk, rest)) :
    decision username pending =
      ((entryRole username chunk).map fun roleS => (0, roleResult roleS)).or
        ((decision username rest).map (Prod.map (· + chunk.count newline) id)) := by
  rw [decision, read]
  simp only [untilNul_of_notMem noNul, scanLine_eq]
  cases entryRole username chunk <;> rfl

/-- The loop goes through the chunks of a line, and on from the last of them. -/
theorem decision_line {username behind : Text} {onward : Option (Nat × AuthResult)}
    (last : ∀ piece : Text, newline ∉ piece → 0 ∉ piece → piece.length < authLineBufSize - 1 →
      decision username (piece ++ behind) =
        ((entryRole username piece).map fun roleS => (0, roleResult roleS)).or onward)
    {line : Text} (absent : newline ∉ line) (noNul : 0 ∉ line) :
    decision username (line ++ behind) =
      ((chunkRole username line).map fun roleS => (0, roleResult roleS)).or onward := by
  induction line using lineChunks.induct (authLineBufSize - 1) with
  | case1 line whole =>
      have fits : line.length < authLineBufSize - 1 := whole.resolve_right (by decide)
      rw [last line absent noNul fits, chunkRole_of_fits username fits]
  | case2 line split ih =>
      have overlong : authLineBufSize - 1 ≤ line.length := by omega
      have read := fgets_of_overlong true behind absent (by decide) overlong
      have noNulChunk : 0 ∉ line.take (authLineBufSize - 1) :=
        fun member => noNul (List.mem_of_mem_take member)
      have unended : (line.take (authLineBufSize - 1)).count newline = 0 :=
        List.count_eq_zero.mpr fun member => absent (List.mem_of_mem_take member)
      have later := ih (fun member => absent (List.mem_of_mem_drop member))
        fun member => noNul (List.mem_of_mem_drop member)
      have kept : Prod.map (· + 0) (id : AuthResult → AuthResult) = id := rfl
      rw [decision_of_read noNulChunk read, later, unended, kept, Option.map_id,
        chunkRole_of_overlong username overlong]
      cases entryRole username (line.take (authLineBufSize - 1)) <;> rfl

/-- The loop takes the chunks of each line for lines. -/
theorem decision_eq (username text : Text) (noNul : 0 ∉ text) :
    decision username text =
      (firstAnswer (chunkRole username) (lines text)).map (Prod.map id roleResult) := by
  have ended : decision username [] = none := by
    rw [decision, show fgets authLineBufSize true [] = some (none, []) from rfl]
  obtain ⟨line, absent, ⟨whole, split⟩ | ⟨tail, whole, split⟩⟩ := lines_cases text
  · have last (piece : Text) (absent : newline ∉ piece) (noNul : 0 ∉ piece)
        (fits : piece.length < authLineBufSize - 1) : decision username (piece ++ []) =
          ((entryRole username piece).map fun roleS => (0, roleResult roleS)).or none := by
      rw [List.append_nil, Option.or_none]
      by_cases empty : piece = []
      · subst empty
        exact ended
      · rw [decision_of_read noNul (fgets_of_last absent empty fits), ended, Option.map_none,
          Option.or_none]
    have read := decision_line last absent (whole ▸ noNul)
    rw [List.append_nil] at read
    rw [split, whole, read, firstAnswer_cons]
    cases chunkRole username line <;> rfl
  · have noNulTail : 0 ∉ tail := fun member => noNul (by simp [whole, member])
    have noNulLine : 0 ∉ line := fun member => noNul (by simp [whole, member])
    have last (piece : Text) (absent : newline ∉ piece) (noNul : 0 ∉ piece)
        (fits : piece.length < authLineBufSize - 1) :
        decision username (piece ++ newline :: tail) =
          ((entryRole username piece).map fun roleS => (0, roleResult roleS)).or
            ((decision username tail).map (Prod.map (· + 1) id)) := by
      have ends : (piece ++ [newline]).count newline = 1 := by
        rw [List.count_append, List.count_eq_zero.mpr absent]
        rfl
      rw [decision_of_read (noNul_line noNul) (fgets_of_fits true tail absent fits),
        entryRole_newline, ends]
    have shorter : tail.length < text.length := by
      rw [whole, List.length_append, List.length_cons]
      omega
    rw [whole, decision_line last absent noNulLine, decision_eq username tail noNulTail, ← whole,
      split, firstAnswer_cons]
    cases chunkRole username line with
    | some roleS => rfl
    | none => cases firstAnswer (chunkRole username) (lines tail) <;> rfl
termination_by text.length

/-! ## Agreement -/

theorem authLookupRoleInto_eq (username : Text) {text : Text} (noNul : 0 ∉ text)
    (outRole : UserRole) :
    authLookupRoleInto (some text) username outRole =
      outcome outRole ((firstAnswer (chunkRole username) (lines text)).map Prod.snd) := by
  rw [authLookupRoleInto, authLookupRole, scanLines_eq, decision_eq username text noNul]
  rcases firstAnswer (chunkRole username) (lines text) with _ | ⟨n, roleS⟩
  · rfl
  · simp only [Option.map_some, Option.getD_some, Prod.map, roleResult, outcome]
    cases parseRole roleS <;> rfl

theorem outcome_eq_iff {outRole : UserRole} {roleS roleS' : Option Text} :
    outcome outRole roleS = outcome outRole roleS' ↔
      roleS.map parseRole = roleS'.map parseRole := by
  have parsed (roleS : Option Text) : outcome outRole roleS =
      (roleS.map parseRole).elim (-1, outRole) fun role => role.elim (-2, outRole) (0, ·) := by
    cases roleS with
    | none => rfl
    | some roleS =>
        simp only [outcome, Option.map_some, Option.elim_some]
        cases parseRole roleS <;> rfl
  rw [parsed, parsed]
  rcases roleS.map parseRole with _ | _ | role <;>
    rcases roleS'.map parseRole with _ | _ | role' <;> simp

/-- Two answers are the same up to translation if their numbers are, and they are. -/
theorem map_prod_eq_iff {β γ : Type} {g : β → γ} {a b : Option (Nat × β)} :
    a.map (Prod.map id g) = b.map (Prod.map id g) ↔
      a.map Prod.fst = b.map Prod.fst ∧ (a.map Prod.snd).map g = (b.map Prod.snd).map g := by
  cases a <;> cases b <;> simp [Prod.ext_iff]

/-- A lookup goes by the lines of the file exactly if the first line with something to say
about the user says the same, role for role, when it is read in chunks.  A line of less
than 511 bytes always does. -/
theorem followsLines_iff {text : Text} (noNul : 0 ∉ text) (username : Text) :
    FollowsLines text username ↔
      ∀ line, (lines text).find? (speaks username) = some line →
        (chunkRole username line).map parseRole = (entryRole username line).map parseRole := by
  have compared : FollowsLines text username ↔
      (firstAnswer (chunkRole username) (lines text)).map (Prod.map id parseRole) =
        (firstAnswer (entryRole username) (lines text)).map (Prod.map id parseRole) := by
    have number : (decision username text).map Prod.fst =
        (firstAnswer (chunkRole username) (lines text)).map Prod.fst := by
      rw [decision_eq username text noNul, Option.map_map]
      rfl
    rw [map_prod_eq_iff]
    constructor
    · rintro ⟨stops, returns⟩
      have returned := returns .read
      rw [authLookupRoleInto_eq username noNul, outcome_eq_iff] at returned
      exact ⟨number.symm.trans stops, returned⟩
    · rintro ⟨stops, returned⟩
      refine ⟨number.trans stops, fun outRole => ?_⟩
      rw [authLookupRoleInto_eq username noNul, outcome_eq_iff]
      exact returned
  rw [compared, ← firstAnswer_map, ← firstAnswer_map, firstAnswer_eq_iff]
  simp only [Option.isSome_map]
  rfl

/-- A file of lines that all fit the buffer, for one of its users. -/
theorem followsLines_iff_small :
    FollowsLines (ascii "# users\n bob  write \neve\tread") (ascii "eve") := by
  have short : ∀ line ∈ lines (ascii "# users\n bob  write \neve\tread"),
      line.length < authLineBufSize - 1 := by decide
  apply (followsLines_iff (by decide) (ascii "eve")).mpr
  intro line found
  rw [chunkRole_of_fits _ (short line (List.mem_of_find?_eq_some found))]

/-- A comment is no entry, however long it is. -/
theorem entryRole_comment (username rest : Text) : entryRole username (35 :: rest) = none := by
  obtain ⟨behind, whole⟩ : trimRight (35 :: rest) <+: 35 :: rest := List.rdropWhile_prefix _ _
  have nonempty : trimRight (35 :: rest) ≠ [] := by
    intro empty
    have blank := List.rdropWhile_eq_nil_iff.mp empty 35 List.mem_cons_self
    exact absurd blank (by decide)
  obtain ⟨c, more, split⟩ := List.exists_cons_of_ne_nil nonempty
  obtain rfl : c = 35 := by
    rw [split] at whole
    exact (List.cons.inj whole).1
  rw [entryRole, lineEntry, split]
  rfl

/-- But what stands behind its first 511 bytes is read as a line. -/
theorem chunkRole_comment (username : Text) {comment behind : Text}
    (long : (35 :: comment).length = authLineBufSize - 1)
    (fits : behind.length < authLineBufSize - 1) :
    chunkRole username (35 :: comment ++ behind) = entryRole username behind := by
  have overlong : authLineBufSize - 1 ≤ (35 :: comment ++ behind).length := by
    rw [List.length_append, long]
    exact Nat.le_add_right _ _
  rw [chunkRole_of_overlong username overlong, List.take_left' long, List.drop_left' long,
    entryRole_comment, Option.none_or, chunkRole_of_fits username fits]

/-- The end of a comment makes a writer: behind 511 bytes of it a chunk starts with
`mallory write`. -/
theorem comment_grants_write :
    let text := 35 :: List.replicate 510 120 ++ ascii "mallory write\n"
    ¬FollowsLines text (ascii "mallory") ∧
      authLookupRoleInto (some text) (ascii "mallory") .read = (0, .write) ∧
      firstEntry (ascii "mallory") text = none := by
  intro text
  have noNul : 0 ∉ text := by decide +kernel
  have split : lines text = [35 :: List.replicate 510 120 ++ ascii "mallory write", []] := by
    decide +kernel
  have empty : entryRole (ascii "mallory") [] = none := by decide
  have found : firstEntry (ascii "mallory") text = none := by
    rw [firstEntry, split, firstAnswer_cons, firstAnswer_cons, List.cons_append,
      entryRole_comment, empty]
    rfl
  have long : (35 :: List.replicate 510 120 : Text).length = authLineBufSize - 1 := by
    rw [List.length_cons, List.length_replicate]
    rfl
  have chunk := chunkRole_comment (ascii "mallory") long
    (show (ascii "mallory write").length < authLineBufSize - 1 from by decide)
  have entry : entryRole (ascii "mallory") (ascii "mallory write") = some (ascii "write") := by
    decide
  have granted : authLookupRoleInto (some text) (ascii "mallory") .read = (0, .write) := by
    rw [authLookupRoleInto_eq _ noNul, split, firstAnswer_cons, chunk, entry]
    rfl
  have strays : ¬FollowsLines text (ascii "mallory") := by
    intro follows
    have returned := follows.returns .read
    rw [granted, found] at returned
    exact absurd returned (by decide)
  exact ⟨strays, granted, found⟩

end CollabMarkdown.Auth
