import CollabMarkdown.CString.Chunks
import CollabMarkdown.Command.Session
import CollabMarkdown.Process.Threads

/-!
# The name a client logs in under

A client sends its name as a line, and the thread reads that line through a buffer of 128
bytes.  What does not fit, and what stands behind a newline in the name itself, stays in
the stream, where the command loop finds it.
-/

namespace CollabMarkdown.Process

open CollabMarkdown.CString
open CollabMarkdown.Command

/-- `read_line_strip_newline`.  The answer is absent when the read would block, and
its line at the end of the file. -/
def readLineStripNewline (size : Nat) (closed : Bool) (pending : Text) :
    Option (Option Text × Text) :=
  (fgets size closed pending).map fun (buf, rest) =>
    (buf.map fun buf => withoutTrailingNewline (untilNul buf), rest)

section

variable {size : Nat} {closed : Bool} {username rest : Text}

/-- A name that fits and holds no newline is read whole. -/
theorem login_of_fits (noNul : 0 ∉ username) (absent : newline ∉ username)
    (fits : username.length < size - 1) :
    readLineStripNewline size closed (username ++ newline :: rest) =
      some (some username, rest) := by
  rw [readLineStripNewline, fgets_of_fits closed rest absent fits]
  simp [untilNul_of_notMem (noNul_line noNul), withoutTrailingNewline]

/-- Of a line that does not fit, the name is as much as there is room for. -/
theorem login_of_overlong {line : Text} (noNul : 0 ∉ line) (absent : newline ∉ line)
    (room : 1 < size) (overlong : size - 1 ≤ line.length) :
    readLineStripNewline size closed (line ++ rest) =
      some (some (line.take (size - 1)), line.drop (size - 1) ++ rest) := by
  have noNul' : 0 ∉ line.take (size - 1) := fun member => noNul (List.mem_of_mem_take member)
  have absent' : newline ∉ line.take (size - 1) :=
    fun member => absent (List.mem_of_mem_take member)
  rw [readLineStripNewline, fgets_of_overlong closed rest absent room overlong]
  simp [untilNul_of_notMem noNul', withoutTrailingNewline_of_notMem absent']

/-- Any other name is read as another one, or leaves its newline in the stream. -/
theorem login_cases (room : 1 < size) (noNul : 0 ∉ username) {name stream : Text}
    (login : readLineStripNewline size closed (username ++ newline :: rest) =
      some (some name, stream)) :
    (newline ∉ username ∧ username.length < size - 1) ∧ name = username ∧ stream = rest ∨
      ¬(newline ∉ username ∧ username.length < size - 1) ∧
        (name ≠ username ∨ stream = newline :: rest) := by
  by_cases inside : newline ∈ username
  · refine .inr ⟨fun whole => whole.1 inside, .inl ?_⟩
    obtain ⟨first, second, split, absent⟩ := List.eq_append_cons_of_mem inside
    have shorter : first.length < username.length := by
      rw [split, List.length_append, List.length_cons]
      omega
    have noNul' : 0 ∉ first := fun member => noNul (split ▸ List.mem_append_left _ member)
    rw [split, List.append_assoc, List.cons_append] at login
    have name_le : name.length ≤ first.length := by
      by_cases fits : first.length < size - 1
      · rw [login_of_fits noNul' absent fits] at login
        cases login
        exact Nat.le_refl _
      · rw [login_of_overlong noNul' absent room (Nat.le_of_not_lt fits)] at login
        cases login
        exact List.length_take_le' _ _
    rintro rfl
    exact absurd name_le (Nat.not_le_of_lt shorter)
  · by_cases fits : username.length < size - 1
    · rw [login_of_fits noNul inside fits] at login
      cases login
      exact .inl ⟨⟨inside, fits⟩, rfl, rfl⟩
    · refine .inr ⟨fun whole => fits whole.2, ?_⟩
      rw [login_of_overlong noNul inside room (Nat.le_of_not_lt fits)] at login
      cases login
      by_cases exact_ : username.length = size - 1
      · exact .inr (by rw [← exact_, List.drop_length, List.nil_append])
      · refine .inl fun same => ?_
        have length := congrArg List.length same
        rw [List.length_take] at length
        omega

end

end CollabMarkdown.Process
