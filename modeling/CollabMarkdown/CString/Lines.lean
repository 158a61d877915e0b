import Mathlib.Data.List.TakeWhile
import CollabMarkdown.CString.Scan
import CollabMarkdown.Sequence.Framing

/-!
# Lines read through a buffer

A reader that calls `fgets` with a fixed buffer sees a newline-terminated line as
one chunk when it fits, and as several chunks when it does not.  `lineChunks`
lists them for a buffer with room for `room` bytes before the terminator.
-/

namespace CollabMarkdown.CString

open CollabMarkdown.Sequence

/-! ## Buffers without a NUL -/

theorem untilNul_append {text : Text} (noNul : 0 ∉ text) (rest : Text) :
    untilNul (text ++ rest) = text ++ untilNul rest :=
  takeWhile_append_of_notMem noNul rest

theorem untilNul_of_notMem {text : Text} (noNul : 0 ∉ text) : untilNul text = text :=
  takeWhile_of_notMem noNul

theorem noNul_line {line : Text} (noNul : 0 ∉ line) : 0 ∉ line ++ [newline] := fun member =>
  (List.mem_append.mp member).elim noNul fun ends => absurd ends (by decide)

/-! ## One call -/

theorem fgetsTake_of_fits {size : Nat} {line : Text} (rest : Text) (absent : newline ∉ line)
    (fits : line.length < size - 1) :
    fgetsTake size (line ++ newline :: rest) = line ++ [newline] := by
  obtain ⟨spare, room⟩ := Nat.exists_eq_add_of_lt fits
  have window : (line ++ newline :: rest).take (size - 1) = line ++ newline :: rest.take spare := by
    rw [room, Nat.add_assoc, List.take_length_add_append, List.take_succ_cons]
  have before : (line ++ newline :: rest.take spare).takeWhile (· != newline) = line := by
    rw [takeWhile_append_of_notMem absent, List.takeWhile_cons_of_neg (by simp), List.append_nil]
  simp only [fgetsTake, window, before]
  rw [List.take_length_add_append]
  rfl

theorem fgetsTake_of_overlong {size : Nat} {line : Text} (rest : Text) (absent : newline ∉ line)
    (overlong : size - 1 ≤ line.length) :
    fgetsTake size (line ++ rest) = line.take (size - 1) := by
  have window : (line ++ rest).take (size - 1) = line.take (size - 1) :=
    List.take_append_of_le_length overlong
  have before : (line.take (size - 1)).takeWhile (· != newline) = line.take (size - 1) :=
    takeWhile_of_notMem fun member => absent (List.mem_of_mem_take member)
  simp only [fgetsTake, window, before]
  exact List.take_of_length_le (Nat.le_succ _)

/-- A line that fits the buffer is read whole, with its newline. -/
theorem fgets_of_fits {size : Nat} {line : Text} (closed : Bool) (rest : Text)
    (absent : newline ∉ line) (fits : line.length < size - 1) :
    fgets size closed (line ++ newline :: rest) = some (some (line ++ [newline]), rest) := by
  have split : line ++ newline :: rest = (line ++ [newline]) ++ rest := by simp
  simp only [fgets, fgetsTake_of_fits rest absent fits]
  rw [split, List.drop_left]
  simp

/-- Of a line that does not fit, one read takes as many bytes as there is room for. -/
theorem fgets_of_overlong {size : Nat} {line : Text} (closed : Bool) (rest : Text)
    (absent : newline ∉ line) (room : 1 < size) (overlong : size - 1 ≤ line.length) :
    fgets size closed (line ++ rest) =
      some (some (line.take (size - 1)), line.drop (size - 1) ++ rest) := by
  have length_eq : (line.take (size - 1)).length = size - 1 := List.length_take_of_le overlong
  have nonempty : line.take (size - 1) ≠ [] := by
    intro empty
    rw [empty, List.length_nil] at length_eq
    omega
  simp only [fgets, fgetsTake_of_overlong rest absent overlong, length_eq]
  simp [nonempty, List.drop_append_of_le_length overlong]

/-- A read does not block on a whole line. -/
theorem fgets_ne_none_of_newline {size : Nat} (closed : Bool) {pending : Text} (room : 1 < size)
    (whole : newline ∈ pending) : fgets size closed pending ≠ none := by
  obtain ⟨line, rest, rfl, absent⟩ := List.eq_append_cons_of_mem whole
  rcases Nat.lt_or_ge line.length (size - 1) with fits | overlong
  · rw [fgets_of_fits closed rest absent fits]
    exact Option.some_ne_none _
  · rw [fgets_of_overlong closed _ absent room overlong]
    exact Option.some_ne_none _

/-- At the end of a file a line without a newline is read as it is. -/
theorem fgets_of_last {size : Nat} {line : Text} (absent : newline ∉ line) (nonempty : line ≠ [])
    (fits : line.length < size - 1) : fgets size true line = some (some line, []) := by
  have window : line.take (size - 1) = line := List.take_of_length_le (Nat.le_of_lt fits)
  have taken : fgetsTake size line = line := by
    simp only [fgetsTake, window, takeWhile_of_notMem absent]
    exact List.take_of_length_le (Nat.le_succ _)
  simp [fgets, taken, nonempty]

/-- When a read returns bytes, and which. -/
theorem fgets_eq_some_iff {size : Nat} {closed : Bool} {pending chunk rest : Text} :
    fgets size closed pending = some (some chunk, rest) ↔
      (newline ∈ chunk ∨ size - 1 ≤ chunk.length ∨ closed = true) ∧
        fgetsTake size pending = chunk ∧ chunk ≠ [] ∧ pending.drop chunk.length = rest := by
  simp only [fgets]
  constructor
  · intro read
    split at read
    · rename_i complete
      simp only [Option.some.injEq, Prod.mk.injEq] at read
      obtain ⟨taken, dropped⟩ := read
      split at taken
      · contradiction
      · rename_i nonempty
        rw [Option.some.injEq] at taken
        subst taken
        exact ⟨complete, rfl, by simpa using nonempty, dropped⟩
    · contradiction
  · rintro ⟨complete, rfl, nonempty, rfl⟩
    rw [if_pos complete, if_neg (by simpa using nonempty)]

/-- A read that returns bytes consumes them. -/
theorem fgets_consumes {size : Nat} {closed : Bool} {pending chunk rest : Text}
    (read : fgets size closed pending = some (some chunk, rest)) :
    chunk ≠ [] ∧ pending = chunk ++ rest := by
  obtain ⟨-, taken, nonempty, rfl⟩ := fgets_eq_some_iff.mp read
  have isPrefix : chunk <+: pending :=
    taken ▸ (List.take_prefix _ _).trans (List.take_prefix _ _)
  refine ⟨nonempty, ?_⟩
  conv_lhs => rw [← List.take_append_drop chunk.length pending]
  rw [← List.prefix_iff_eq_take.mp isPrefix]

/-- What one read takes fits the buffer. -/
theorem length_fgets_lt {size : Nat} {closed : Bool} {pending chunk rest : Text}
    (room : 0 < size) (read : fgets size closed pending = some (some chunk, rest)) :
    chunk.length < size := by
  obtain ⟨-, rfl, -, -⟩ := fgets_eq_some_iff.mp read
  simp only [fgetsTake, List.length_take]
  omega

/-- A chunk has its newline last. -/
theorem newline_notMem_dropLast {size : Nat} {closed : Bool} {pending chunk rest : Text}
    (read : fgets size closed pending = some (some chunk, rest)) {line : Text}
    (isPrefix : line <+: chunk) : newline ∉ line.dropLast := by
  obtain ⟨-, taken, -, -⟩ := fgets_eq_some_iff.mp read
  let before := (pending.take (size - 1)).takeWhile (· != newline)
  have short : line.length - 1 ≤ before.length := by
    have inside := isPrefix.length_le
    have chunk_le : chunk.length ≤ before.length + 1 := by
      rw [← taken, fgetsTake]
      exact List.length_take_le _ _
    omega
  have dropped : line.dropLast <+: before := by
    have window : line.dropLast <+: pending.take (size - 1) :=
      (List.dropLast_prefix line).trans
        (isPrefix.trans (taken ▸ List.take_prefix _ _))
    refine List.prefix_of_prefix_length_le window (List.takeWhile_prefix _) ?_
    rw [List.length_dropLast]
    exact short
  intro member
  have stopped := List.mem_takeWhile_imp (dropped.subset member)
  simp at stopped

theorem fgets_shorter {size : Nat} {closed : Bool} {pending chunk rest : Text}
    (read : fgets size closed pending = some (some chunk, rest)) :
    rest.length < pending.length := by
  obtain ⟨nonempty, rfl⟩ := fgets_consumes read
  have positive := List.length_pos_of_ne_nil nonempty
  rw [List.length_append]
  omega

/-- Once a read is complete, what arrives later makes no difference to it. -/
theorem fgetsTake_append {size : Nat} {pending : Text} (more : Text)
    (complete : newline ∈ fgetsTake size pending ∨ size - 1 ≤ (fgetsTake size pending).length) :
    fgetsTake size (pending ++ more) = fgetsTake size pending := by
  by_cases full : size - 1 ≤ pending.length
  · rw [fgetsTake, fgetsTake, List.take_append_of_le_length full]
  · have whole : pending.take (size - 1) = pending := List.take_of_length_le (by omega)
    have within : (fgetsTake size pending).length ≤ pending.length := by
      simp only [fgetsTake, whole]
      exact List.length_take_le' _ _
    have inside : newline ∈ pending := by
      rcases complete with member | long
      · simp only [fgetsTake, whole] at member
        exact List.mem_of_mem_take member
      · omega
    have stops : (pending.takeWhile (· != newline)).length ≠ pending.length := by
      intro all
      have same := (List.takeWhile_prefix (· != newline)).eq_of_length all
      have other := List.takeWhile_eq_self_iff.mp same newline inside
      simp at other
    have before : (pending.takeWhile (· != newline)).length < pending.length :=
      Nat.lt_of_le_of_ne (List.takeWhile_prefix _).length_le stops
    have window : (pending ++ more).take (size - 1) =
        pending ++ more.take (size - 1 - pending.length) := by
      rw [List.take_append, whole]
    simp only [fgetsTake, window, whole, List.takeWhile_append, if_neg stops]
    exact List.take_append_of_le_length before

/-- A line that was read is read the same with more bytes behind, unless the end of the
stream had cut it off. -/
theorem fgets_append {size : Nat} {closed closed' : Bool} {pending chunk rest : Text}
    (more : Text) (read : fgets size closed pending = some (some chunk, rest))
    (last : closed = true → more = []) (closes : closed = true → closed' = true) :
    fgets size closed' (pending ++ more) = some (some chunk, rest ++ more) := by
  obtain ⟨nonempty, split⟩ := fgets_consumes read
  obtain ⟨complete, taken, -, -⟩ := fgets_eq_some_iff.mp read
  have same : fgetsTake size (pending ++ more) = chunk := by
    rw [← taken] at complete ⊢
    rcases complete with member | long | ended
    · exact fgetsTake_append more (.inl member)
    · exact fgetsTake_append more (.inr long)
    · rw [last ended, List.append_nil]
  apply fgets_eq_some_iff.mpr
  refine ⟨complete.imp_right (Or.imp_right closes), same, nonempty, ?_⟩
  rw [split, List.append_assoc, List.drop_left]

/-- Only the end of the stream gives nothing. -/
theorem fgets_ended {size : Nat} {closed : Bool} {pending rest : Text} (room : 1 < size)
    (ended : fgets size closed pending = some (none, rest)) : closed = true ∧ pending = [] := by
  simp only [fgets] at ended
  split at ended
  · rename_i complete
    simp only [Option.some.injEq, Prod.mk.injEq] at ended
    have found := ended.1
    split at found
    · rename_i none
      have empty : fgetsTake size pending = [] := by simpa using none
      rw [empty] at complete
      constructor
      · rcases complete with member | long | closed
        · exact absurd member List.not_mem_nil
        · rw [List.length_nil] at long
          omega
        · exact closed
      · cases pending with
        | nil => rfl
        | cons c rest =>
            obtain ⟨spare, size_eq⟩ := Nat.exists_eq_add_of_lt room
            simp [fgetsTake, size_eq] at empty
    · contradiction
  · contradiction

/-- On an open stream a line can be read in pieces. -/
theorem fgets_resumable {size : Nat} (room : 1 < size) : Resumable (fgets size false) := by
  intro pending line rest more read
  cases line with
  | none => exact absurd (fgets_ended room read).1 (by decide)
  | some chunk => exact fgets_append more read (fun closed => by contradiction) id

/-! ## The chunks of a line -/

/-- What successive reads return for a line and its newline. -/
def lineChunks (room : Nat) (line : Text) : List Text :=
  if line.length < room ∨ room = 0 then
    [line ++ [newline]]
  else
    line.take room :: lineChunks room (line.drop room)
termination_by line.length
decreasing_by
  rw [List.length_drop]
  omega

theorem lineChunks_of_fits {room : Nat} {line : Text} (fits : line.length < room) :
    lineChunks room line = [line ++ [newline]] := by
  rw [lineChunks, if_pos (Or.inl fits)]

theorem lineChunks_of_overlong {room : Nat} {line : Text} (positive : 0 < room)
    (overlong : room ≤ line.length) :
    lineChunks room line = line.take room :: lineChunks room (line.drop room) := by
  rw [lineChunks, if_neg]
  omega

/-- The chunks are the line with its newline, cut up. -/
theorem flatten_lineChunks (room : Nat) (line : Text) :
    (lineChunks room line).flatten = line ++ [newline] := by
  induction line using lineChunks.induct room with
  | case1 line whole => rw [lineChunks, if_pos whole, List.flatten_singleton]
  | case2 line split ih =>
      rw [lineChunks, if_neg split, List.flatten_cons, ih, ← List.append_assoc,
        List.take_append_drop]

end CollabMarkdown.CString
