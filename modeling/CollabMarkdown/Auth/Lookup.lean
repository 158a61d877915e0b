import CollabMarkdown.Command.Execute
import CollabMarkdown.CString.Lines
import CollabMarkdown.CString.Tokens

/-!
# Looking up a role

`auth_lookup_role` reads the roles file line by line and splits a line with three
calls of `strtok`.  `authLookupRole` is the lookup of a thread that runs alone, on
strings.
-/

namespace CollabMarkdown.Auth

open CollabMarkdown.CString
open CollabMarkdown.Command

/-- `AUTH_LINE_BUF_SIZE`. -/
def authLineBufSize : Nat := 512

/-- `auth_result`, with the role that a successful lookup stores. -/
inductive AuthResult where
  | ok (role : UserRole)
  | notFound
  | invalidRole
  | ioError
  deriving DecidableEq, Repr

/-- `" \t"`. -/
def blanks : Text :=
  [space, 9]

/-- `trim_left`. -/
def trimLeft (s : Text) : Text :=
  s.dropWhile isspace

/-- The string that `trim_right_in_place` leaves. -/
def trimRight (s : Text) : Text :=
  s.rdropWhile isspace

/-- The comparisons of the role token with `write` and `read`. -/
def parseRole (roleS : Text) : Option UserRole :=
  if roleS = ascii "write" then some .write
  else if roleS = ascii "read" then some .read
  else none

/-- A line is passed over when it is empty or starts with `#`. -/
def passedOver (p : Text) : Bool :=
  match p with
  | [] => true
  | c :: _ => c == 35

/-- What the lookup returns once it has found the user. -/
def roleResult (roleS : Text) : AuthResult :=
  match parseRole roleS with
  | none => .invalidRole
  | some role => .ok role

/-- The checks on the three tokens of a line.  No result means that the lookup goes on
with the next line. -/
def checkEntry (username : Text) : Option Text → Option Text → Option Text → Option AuthResult
  | some usernameS, some roleS, none =>
      if usernameS = username then some (roleResult roleS) else none
  | _, _, _ => none

/-- The three calls of `strtok` on a line that is not passed over. -/
def scanEntry (username p : Text) : Option AuthResult :=
  let (usernameS, s) := strtok blanks p
  let (roleS, s) := strtok blanks s
  let (extra, _) := strtok blanks s
  checkEntry username usernameS roleS extra

/-- The body of the loop over the lines of the file.  The answer is what it returns
from the loop. -/
def scanLine (username line : Text) : Option AuthResult :=
  let p := trimLeft (trimRight line)
  if passedOver p then none else scanEntry username p

/-- The loop over the lines of the file. -/
def scanLines (username pending : Text) : AuthResult :=
  match _read : fgets authLineBufSize true pending with
  | some (some line, rest) => (scanLine username (untilNul line)).getD (scanLines username rest)
  | _ => .notFound
termination_by pending.length
decreasing_by exact fgets_shorter _read

/-- The lookup in a file, absent when it cannot be opened. -/
def authLookupRole (file : Option Text) (username : Text) : AuthResult :=
  match file with
  | none => .ioError
  | some text => scanLines username text

/-! ## In place -/

/-- The loop of `trim_right_in_place`, on the first `n` bytes of a buffer. -/
def trimRightInPlace (line : Text) : Nat → Text
  | 0 => line
  | n + 1 => if isspace (byteAt line n) then trimRightInPlace (line.set n 0) n else line

/-- Trimming in place leaves the trimmed string. -/
theorem stringAt_trimRightInPlace {line s : Text} (held : stringAt line 0 = s) :
    stringAt (trimRightInPlace line s.length) 0 = trimRight s := by
  induction s using List.reverseRecOn generalizing line with
  | nil => exact held
  | append_singleton s c ih =>
      have last : byteAt line s.length = c := by
        have inside : s ++ [c] <+: line := held ▸ List.takeWhile_prefix _
        obtain ⟨rest, rfl⟩ := inside
        simp [byteAt]
      rw [List.length_append, List.length_singleton, trimRightInPlace, last, trimRight]
      by_cases blank : isspace c
      · rw [if_pos blank, List.rdropWhile_concat_pos _ _ _ blank]
        apply ih
        rw [stringAt_set line (Nat.zero_le _), held, Nat.sub_zero, List.take_left]
      · rw [if_neg blank, List.rdropWhile_concat_neg _ _ _ blank, held]

end CollabMarkdown.Auth
