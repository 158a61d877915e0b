import CollabMarkdown.Auth.Lookup
import CollabMarkdown.Core.Decoding

/-!
# Who can log in

The name that a successful lookup compares with is a token of a line: whoever logs
in has a name of at least one byte, without blanks, newlines or NULs, and that is
what the payloads need to be told apart.
-/

namespace CollabMarkdown.Auth

open CollabMarkdown.CString
open CollabMarkdown.Command

/-- A name that can stand first on a line of the roles file. -/
structure Word (name : Text) : Prop where
  nonempty : name ≠ []
  noSpace : space ∉ name
  noTab : 9 ∉ name
  noNewline : newline ∉ name
  noNul : 0 ∉ name

/-- A token is a nonempty part of its string without delimiters. -/
theorem strtok_token {delims s token rest : Text} (found : strtok delims s = (some token, rest)) :
    token ≠ [] ∧ (∀ c ∈ token, c ∉ delims) ∧ ∀ c ∈ token, c ∈ s := by
  simp only [strtok] at found
  split at found
  · simp at found
  · rename_i more
    simp only [Prod.mk.injEq, Option.some.injEq] at found
    obtain ⟨rfl, -⟩ := found
    refine ⟨?_, ?_, ?_⟩
    · intro empty
      cases left : s.dropWhile (· ∈ delims) with
      | nil => simp [left] at more
      | cons c later =>
          have stopped : ¬(decide (c ∈ delims)) = true := by
            have head := List.head?_dropWhile_not (· ∈ delims) s
            simpa [left] using head
          rw [left, List.takeWhile_cons_of_pos (by simpa using stopped)] at empty
          cases empty
    · intro c member
      simpa using List.mem_takeWhile_imp member
    · intro c member
      exact (List.dropWhile_suffix _).subset ((List.takeWhile_prefix _).subset member)

/-- What trimming leaves of a line with its newline last holds none. -/
theorem newline_notMem_trimRight {line : Text} (last : newline ∉ line.dropLast) :
    newline ∉ trimRight line := by
  intro member
  have isPrefix : trimRight line <+: line := List.rdropWhile_prefix _ _
  by_cases whole : trimRight line = line
  · have nonempty : line ≠ [] := List.ne_nil_of_mem (whole ▸ member)
    have stays := List.rdropWhile_eq_self_iff.mp whole nonempty
    have split := List.dropLast_append_getLast nonempty
    rw [whole, ← split, List.mem_append, List.mem_singleton] at member
    rcases member with inside | ends
    · exact last inside
    · rw [← ends] at stays
      exact stays (by decide)
  · have shorter : (trimRight line).length < line.length :=
      Nat.lt_of_le_of_ne isPrefix.length_le fun same => whole (isPrefix.eq_of_length same)
    have inside : trimRight line <+: line.dropLast := by
      refine List.prefix_of_prefix_length_le isPrefix (List.dropLast_prefix line) ?_
      rw [List.length_dropLast]
      omega
    exact last (inside.subset member)

theorem checkEntry_ok {username : Text} {usernameS roleS extra : Option Text} {role : UserRole}
    (accepted : checkEntry username usernameS roleS extra = some (.ok role)) :
    usernameS = some username := by
  match usernameS, roleS, extra with
  | some name, some _, none =>
      simp only [checkEntry] at accepted
      split at accepted
      · rename_i same
        rw [same]
      · contradiction
  | none, _, _ => contradiction
  | some _, none, _ => contradiction
  | some _, some _, some _ => contradiction

theorem scanLine_ok {username line : Text} {role : UserRole} (noNul : 0 ∉ line)
    (last : newline ∉ line.dropLast) (accepted : scanLine username line = some (.ok role)) :
    Word username := by
  simp only [scanLine] at accepted
  split at accepted
  · contradiction
  · have found : (strtok blanks (trimLeft (trimRight line))).1 = some username :=
      checkEntry_ok accepted
    have token : strtok blanks (trimLeft (trimRight line)) =
        (some username, (strtok blanks (trimLeft (trimRight line))).2) := by
      rw [← found]
    obtain ⟨nonempty, word, inside⟩ := strtok_token token
    have trimmed (c : Byte) (member : c ∈ username) : c ∈ trimRight line :=
      (List.dropWhile_suffix _).subset (inside c member)
    exact {
      nonempty
      noSpace := fun member => word space member (by decide)
      noTab := fun member => word 9 member (by decide)
      noNewline := fun member => newline_notMem_trimRight last (trimmed newline member)
      noNul := fun member => noNul ((List.rdropWhile_prefix _ _).subset (trimmed 0 member)) }

theorem scanLines_ok {username pending : Text} {role : UserRole}
    (accepted : scanLines username pending = .ok role) : Word username := by
  induction pending using scanLines.induct with
  | case1 pending line rest read ih =>
      rw [scanLines, read] at accepted
      simp only at accepted
      cases found : scanLine username (untilNul line) with
      | none =>
          rw [found, Option.getD_none] at accepted
          exact ih accepted
      | some result =>
          rw [found, Option.getD_some] at accepted
          subst accepted
          refine scanLine_ok ?_ (newline_notMem_dropLast read (List.takeWhile_prefix _)) found
          intro member
          simpa using List.mem_takeWhile_imp member
  | case2 pending blocked =>
      rw [scanLines] at accepted
      split at accepted
      · rename_i line rest read
        exact absurd read (blocked line rest)
      · cases accepted

/-- A lookup accepts words only. -/
theorem accepted_username_is_word (file : Option Text) (username : Text) (role : UserRole)
    (accepted : authLookupRole file username = .ok role) : Word username := by
  cases file with
  | none => cases accepted
  | some text => exact scanLines_ok accepted

end CollabMarkdown.Auth
