import CollabMarkdown.CString.Basic
import Mathlib.Data.List.Forall2
import Mathlib.Data.List.TakeWhile
import Mathlib.Tactic.IntervalCases

/-!
# Renumbering of ordered lists

The first half follows `renumber_ordered_lists` index by index: one step of the
outer loop reads the line at offset `i` and appends its rewriting to the output,
whose length is the source's `out_pos`.  The second half gives the same function
line by line, which is the form the rest of the development reasons with, and
shows that the two agree on every text.
-/

namespace CollabMarkdown.Markdown

open CollabMarkdown.CString

/-! ## The loop of the source -/

/-- The number of an ordered-list line, absent for any other line.  The argument
is a pointer into a text, so it extends past the end of the line. -/
def isOrderedListLine (line : Text) : Option Nat :=
  if !isdigit (byteAt line 0) then
    none
  else if byteAt line 1 != 46 || byteAt line 2 != space then
    none
  else
    some ((byteAt line 0).toNat - 48)

/-- The variables of the outer loop. -/
structure RenumberState where
  i : Nat
  out : Text
  currentListNo : Nat
  inOrderedBlock : Bool
  deriving DecidableEq, Repr

/-- The offset where the line starting at `i` ends. -/
def lineEnd (text : Text) (i : Nat) : Nat :=
  i + ((text.drop i).takeWhile (· != newline)).length

/-- The loop body up to the newline: copy one line of `lineLen` bytes, with its
number replaced when it is a list line. -/
def renumberLine (st : RenumberState) (line : Text) (lineLen : Nat) : RenumberState :=
  match isOrderedListLine line with
  | some _ =>
      let currentListNo := if st.inOrderedBlock then st.currentListNo else 1
      let out := st.out ++ [UInt8.ofNat (48 + currentListNo), 46, space]
      { st with
        out := if 3 < lineLen then out ++ (line.drop 3).take (lineLen - 3) else out
        currentListNo := if 9 < currentListNo + 1 then 9 else currentListNo + 1
        inOrderedBlock := true }
  | none =>
      { st with
        out := if 0 < lineLen then st.out ++ line.take lineLen else st.out
        inOrderedBlock := false }

/-- One iteration of the outer loop. -/
def renumberStep (text : Text) (st : RenumberState) : RenumberState :=
  let lineStop := lineEnd text st.i
  let next := renumberLine st (text.drop st.i) (lineStop - st.i)
  if lineStop < text.length ∧ byteAt text lineStop = newline then
    { next with out := next.out ++ [newline], i := lineStop + 1 }
  else
    { next with i := lineStop }

/-- The outer loop with a bound on its iterations. -/
def renumberLoop (text : Text) : Nat → RenumberState → RenumberState
  | 0, st => st
  | fuel + 1, st =>
      if st.i < text.length then renumberLoop text fuel (renumberStep text st) else st

/-- The state in front of the loop. -/
def renumberStart : RenumberState :=
  ⟨0, [], 1, false⟩

/-- The text the loop leaves in its output buffer.  Every iteration advances the
offset, so the length of the text bounds their number. -/
def renumbered (text : Text) : Text :=
  (renumberLoop text text.length renumberStart).out

/-- `renumber_ordered_lists`, absent when its buffer cannot be allocated. -/
def renumberOrderedLists {m : Type → Type} [Monad m] [MonadMalloc m] (text : Text) :
    m (Option Text) := do
  if ← malloc (text.length + 1) then
    return some (renumbered text)
  else
    return none

@[simp]
theorem run_renumberOrderedLists (text : Text) :
    Id.run (renumberOrderedLists text) = some (renumbered text) := by
  simp [renumberOrderedLists]

/-! ## Line by line -/

/-- The lines of a text, without their newlines. -/
def lines (text : Text) : List Text :=
  text.splitOn newline

/-- The text with these lines. -/
def unlines (ls : List Text) : Text :=
  [newline].intercalate ls

theorem unlines_lines (text : Text) : unlines (lines text) = text :=
  List.intercalate_splitOn newline

/-- A list line with its digit replaced. -/
def setNumber (n : Nat) (line : Text) : Text :=
  UInt8.ofNat (48 + n) :: line.drop 1

/-- One line of the result, `n` being the number a list line receives. -/
def rewriteLine (n : Nat) (line : Text) : Text :=
  if (isOrderedListLine line).isSome then setNumber n line else line

/-- The number a list line receives right after `line`. -/
def numberAfter (n : Nat) (line : Text) : Nat :=
  if (isOrderedListLine line).isSome then min (n + 1) 9 else 1

/-- Renumber lines, `n` being the number a list line in first place receives. -/
def renumberLines : Nat → List Text → List Text
  | _, [] => []
  | n, line :: rest => rewriteLine n line :: renumberLines (numberAfter n line) rest

@[simp]
theorem length_renumberLines (n : Nat) (ls : List Text) :
    (renumberLines n ls).length = ls.length := by
  induction ls generalizing n with
  | nil => rfl
  | cons line rest ih => simp [renumberLines, ih]

theorem unlines_cons {line : Text} {rest : List Text} (more : rest ≠ []) :
    unlines (line :: rest) = line ++ newline :: unlines rest := by
  simp [unlines, List.intercalate_cons_of_ne_nil more]

theorem lines_ne_nil (text : Text) : lines text ≠ [] :=
  List.splitOn_ne_nil newline text

/-- Recognising a list line looks at three bytes, none of which is a newline. -/
theorem isOrderedListLine_append {line tail : Text}
    (stops : tail = [] ∨ ∃ rest, tail = newline :: rest) :
    isOrderedListLine (line ++ tail) = isOrderedListLine line := by
  rcases stops with rfl | ⟨rest, rfl⟩
  · rw [List.append_nil]
  · match line with
    | [] => rfl
    | [a] => simp [isOrderedListLine, newline]
    | [a, b] => simp [isOrderedListLine, newline, space]
    | a :: b :: c :: line => simp [isOrderedListLine]

/-- A list line has its three marker bytes before its end. -/
theorem eq_cons_of_isOrderedListLine {line : Text} {n : Nat}
    (listLine : isOrderedListLine line = some n) :
    ∃ digit rest, line = digit :: 46 :: space :: rest ∧
      isdigit digit = true ∧ n = digit.toNat - 48 := by
  match line with
  | [] => simp [isOrderedListLine, isdigit] at listLine
  | [a] => simp [isOrderedListLine] at listLine
  | [a, b] => simp [isOrderedListLine, space] at listLine
  | a :: b :: c :: rest =>
      simp only [isOrderedListLine, byteAt_cons_zero, byteAt_cons_succ] at listLine
      by_cases digit : isdigit a = true
      · by_cases marker : b = 46 ∧ c = space
        · obtain ⟨rfl, rfl⟩ := marker
          refine ⟨a, rest, rfl, digit, ?_⟩
          simpa [digit] using listLine.symm
        · rw [not_and_or] at marker
          simp [digit, marker] at listLine
      · simp [digit] at listLine

theorem isOrderedListLine_setNumber {line : Text} {n : Nat} (digit : n ≤ 9)
    (listLine : (isOrderedListLine line).isSome) :
    isOrderedListLine (setNumber n line) = some n := by
  obtain ⟨old, found⟩ := Option.isSome_iff_exists.mp listLine
  obtain ⟨first, rest, rfl, _⟩ := eq_cons_of_isOrderedListLine found
  interval_cases n <;> simp [setNumber, isOrderedListLine, isdigit]

/-- A text either is its first line or has a newline right after it. -/
theorem lines_cases (text : Text) :
    ∃ line, newline ∉ line ∧
      ((text = line ∧ lines text = [line]) ∨
        ∃ tail, text = line ++ newline :: tail ∧ lines text = line :: lines tail) := by
  let line := text.takeWhile (· != newline)
  have fresh : newline ∉ line := by
    intro member
    simpa using List.mem_takeWhile_imp member
  refine ⟨line, fresh, ?_⟩
  have parts : line ++ text.dropWhile (· != newline) = text :=
    List.takeWhile_append_dropWhile
  cases tail_eq : text.dropWhile (· != newline) with
  | nil =>
      rw [tail_eq, List.append_nil] at parts
      exact .inl ⟨parts.symm, by rw [← parts]; exact List.splitOn_eq_singleton fresh⟩
  | cons c tail =>
      have stop : c = newline := by
        have rest : text.dropWhile (· != newline) ≠ [] := by simp [tail_eq]
        have failed := List.head_dropWhile_not (· != newline) rest
        simpa [tail_eq] using failed
      subst stop
      rw [tail_eq] at parts
      exact .inr ⟨tail, parts.symm, by
        rw [← parts]
        exact List.splitOn_append_cons_self_of_not_mem fresh tail⟩

/-- The number the next list line would receive. -/
def RenumberState.nextNumber (st : RenumberState) : Nat :=
  if st.inOrderedBlock then st.currentListNo else 1

theorem lineEnd_eq {text line tail : Text} {i : Nat} (rest_eq : text.drop i = line ++ tail)
    (fresh : newline ∉ line) (stops : tail = [] ∨ ∃ rest, tail = newline :: rest) :
    lineEnd text i = i + line.length := by
  have stop : tail.takeWhile (· != newline) = [] := by
    rcases stops with rfl | ⟨rest, rfl⟩ <;> simp
  rw [lineEnd, rest_eq, takeWhile_append_of_notMem fresh, stop, List.append_nil]

/-- The loop meets a newline at the end of the line exactly when something
follows the line. -/
theorem newline_at_lineEnd_iff {text line tail : Text} {i : Nat}
    (rest_eq : text.drop i = line ++ tail)
    (stops : tail = [] ∨ ∃ rest, tail = newline :: rest) :
    (i + line.length < text.length ∧ byteAt text (i + line.length) = newline) ↔
      ∃ rest, tail = newline :: rest := by
  have after : text.drop (i + line.length) = tail := by
    rw [← List.drop_drop, rest_eq, List.drop_left]
  constructor
  · rintro ⟨inside, -⟩
    rcases stops with rfl | found
    · exact absurd (List.drop_eq_nil_iff.mp after) (by omega)
    · exact found
  · rintro ⟨rest, rfl⟩
    have inside : i + line.length < text.length := by
      by_contra outside
      rw [List.drop_eq_nil_of_le (by omega)] at after
      contradiction
    refine ⟨inside, ?_⟩
    rw [List.drop_eq_getElem_cons inside] at after
    rw [byteAt, List.getD_eq_getElem?_getD, List.getElem?_eq_getElem inside]
    exact (List.cons.inj after).1

theorem renumberLine_eq (st : RenumberState) {line tail : Text}
    (stops : tail = [] ∨ ∃ rest, tail = newline :: rest) :
    renumberLine st (line ++ tail) line.length =
      { i := st.i
        out := st.out ++ rewriteLine st.nextNumber line
        currentListNo :=
          if (isOrderedListLine line).isSome then min (st.nextNumber + 1) 9
          else st.currentListNo
        inOrderedBlock := (isOrderedListLine line).isSome } := by
  unfold renumberLine
  rw [isOrderedListLine_append stops]
  cases listLine : isOrderedListLine line with
  | none => cases line <;> simp [rewriteLine, listLine]
  | some n =>
      rw [rewriteLine, listLine]
      obtain ⟨digit, body, rfl, -⟩ := eq_cons_of_isOrderedListLine listLine
      have clamp : (if 9 < st.nextNumber + 1 then 9 else st.nextNumber + 1) =
          min (st.nextNumber + 1) 9 := by
        split <;> omega
      unfold RenumberState.nextNumber at clamp ⊢
      simp only [clamp]
      cases body <;> simp [setNumber]

/-- One iteration appends the rewriting of the line it starts at, and the
newline after it if there is one. -/
theorem renumberStep_eq {text line tail : Text} {st : RenumberState}
    (rest_eq : text.drop st.i = line ++ tail) (fresh : newline ∉ line)
    (stops : tail = [] ∨ ∃ rest, tail = newline :: rest) :
    renumberStep text st =
      { i := st.i + line.length + (tail.take 1).length
        out := st.out ++ rewriteLine st.nextNumber line ++ tail.take 1
        currentListNo :=
          if (isOrderedListLine line).isSome then min (st.nextNumber + 1) 9
          else st.currentListNo
        inOrderedBlock := (isOrderedListLine line).isSome } := by
  have found := newline_at_lineEnd_iff rest_eq stops
  simp only [renumberStep]
  rw [lineEnd_eq rest_eq fresh stops, Nat.add_sub_cancel_left, rest_eq, renumberLine_eq st stops]
  rcases stops with rfl | ⟨rest, rfl⟩
  · rw [if_neg (by rw [found]; simp)]
    simp
  · rw [if_pos (found.mpr ⟨rest, rfl⟩)]
    simp

theorem nextNumber_renumberStep {text line tail : Text} {st : RenumberState}
    (rest_eq : text.drop st.i = line ++ tail) (fresh : newline ∉ line)
    (stops : tail = [] ∨ ∃ rest, tail = newline :: rest) :
    (renumberStep text st).nextNumber = numberAfter st.nextNumber line := by
  rw [renumberStep_eq rest_eq fresh stops, RenumberState.nextNumber, numberAfter]
  cases isOrderedListLine line <;> rfl

/-- The loop appends the renumbered lines of what it has not read yet. -/
theorem renumberLoop_out (text : Text) (fuel : Nat) (st : RenumberState)
    (enough : text.length - st.i ≤ fuel) :
    (renumberLoop text fuel st).out =
      st.out ++ unlines (renumberLines st.nextNumber (lines (text.drop st.i))) := by
  have finished (n : Nat) : unlines (renumberLines n (lines [])) = [] := by
    simp [lines, renumberLines, unlines, rewriteLine, isOrderedListLine, isdigit]
  induction fuel generalizing st with
  | zero =>
      rw [renumberLoop, List.drop_eq_nil_of_le (by omega), finished, List.append_nil]
  | succ fuel ih =>
      unfold renumberLoop
      split
      case isFalse stopped =>
        rw [List.drop_eq_nil_of_le (by omega), finished, List.append_nil]
      case isTrue inside =>
        obtain ⟨line, fresh, ⟨rest_eq, lines_eq⟩ | ⟨tail, rest_eq, lines_eq⟩⟩ :=
          lines_cases (text.drop st.i)
        -- The last line, which no newline ends.
        · rw [← List.append_nil line] at rest_eq
          have length_eq := congrArg List.length rest_eq
          simp only [List.length_drop, List.append_nil] at length_eq
          have next := renumberStep_eq rest_eq fresh (.inl rfl)
          have stop : text.length ≤ (renumberStep text st).i := by
            simp only [next]
            omega
          rw [ih _ (by omega), List.drop_eq_nil_of_le stop, finished, lines_eq, next]
          simp [renumberLines, unlines]
        -- A line with a newline behind it.
        · have length_eq := congrArg List.length rest_eq
          simp only [List.length_drop, List.length_append, List.length_cons] at length_eq
          have next := renumberStep_eq rest_eq fresh (.inr ⟨tail, rfl⟩)
          have number := nextNumber_renumberStep rest_eq fresh (.inr ⟨tail, rfl⟩)
          have stop : (renumberStep text st).i = st.i + (line ++ [newline]).length := by
            simp [next, Nat.add_assoc]
          have rest : text.drop (renumberStep text st).i = tail := by
            rw [stop, ← List.drop_drop, rest_eq, List.append_cons line newline tail, List.drop_left]
          have more : renumberLines (numberAfter st.nextNumber line) (lines tail) ≠ [] := by
            rw [← List.length_pos_iff, length_renumberLines, List.length_pos_iff]
            exact lines_ne_nil tail
          rw [ih _ (by simp [stop]; omega), rest, number, lines_eq, renumberLines,
            unlines_cons more, next]
          simp

/-- The renumbering of a text is the renumbering of its lines. -/
theorem renumbered_eq (text : Text) :
    renumbered text = unlines (renumberLines 1 (lines text)) := by
  rw [renumbered, renumberLoop_out text _ _ (by simp)]
  simp [renumberStart, RenumberState.nextNumber]

/-! ## Normalised texts -/

/-- Line `k` is a list line.  There is none past the last line. -/
def IsListLine (ls : List Text) (k : Nat) : Prop :=
  (isOrderedListLine (ls.getD k [])).isSome

instance (ls : List Text) (k : Nat) : Decidable (IsListLine ls k) :=
  inferInstanceAs (Decidable (_ = true))

/-- Every maximal run of consecutive list lines carries the numbers
`1, 2, …, 8, 9, 9, …` in order: the line in place `k` of a run that starts in
place `first` has the number `min (k - first + 1) 9`. -/
def NumberedInOrder (ls : List Text) : Prop :=
  ∀ first k, first ≤ k → (∀ j, first ≤ j → j ≤ k → IsListLine ls j) →
    (first = 0 ∨ ¬IsListLine ls (first - 1)) →
      isOrderedListLine (ls.getD k []) = some (min (k - first + 1) 9)

theorem isOrderedListLine_rewriteLine {n : Nat} (digit : n ≤ 9) (line : Text) :
    isOrderedListLine (rewriteLine n line) =
      if (isOrderedListLine line).isSome then some n else none := by
  unfold rewriteLine
  split
  case isTrue listLine => exact isOrderedListLine_setNumber digit listLine
  case isFalse other => exact Option.not_isSome_iff_eq_none.mp other

theorem rewriteLine_rewriteLine (n : Nat) (line : Text) :
    rewriteLine n (rewriteLine n line) = rewriteLine n line := by
  by_cases listLine : (isOrderedListLine line).isSome = true
  · simp [rewriteLine, listLine, setNumber]
  · simp [rewriteLine, listLine]

theorem numberAfter_rewriteLine {n : Nat} (digit : n ≤ 9) (line : Text) :
    numberAfter n (rewriteLine n line) = numberAfter n line := by
  unfold numberAfter
  rw [isOrderedListLine_rewriteLine digit]
  split <;> simp

theorem numberAfter_le (n : Nat) (line : Text) : numberAfter n line ≤ 9 := by
  unfold numberAfter
  split <;> omega

/-- Renumbering keeps the newlines where they are. -/
theorem newline_notMem_rewriteLine {n : Nat} (digit : n ≤ 9) {line : Text}
    (fresh : newline ∉ line) : newline ∉ rewriteLine n line := by
  unfold rewriteLine
  split
  · intro member
    rcases List.mem_cons.mp member with equal | later
    · interval_cases n <;> exact absurd equal (by decide)
    · exact fresh (List.mem_of_mem_drop later)
  · exact fresh

theorem newline_notMem_renumberLines {n : Nat} (digit : n ≤ 9) {ls : List Text}
    (fresh : ∀ line ∈ ls, newline ∉ line) : ∀ line ∈ renumberLines n ls, newline ∉ line := by
  induction ls generalizing n with
  | nil => simp [renumberLines]
  | cons line rest ih =>
      intro rewritten member
      rcases List.mem_cons.mp member with rfl | later
      · exact newline_notMem_rewriteLine digit (fresh line List.mem_cons_self)
      · exact ih (numberAfter_le n line)
          (fun other inside => fresh other (List.mem_cons_of_mem line inside)) _ later

theorem renumberLines_renumberLines {n : Nat} (digit : n ≤ 9) (ls : List Text) :
    renumberLines n (renumberLines n ls) = renumberLines n ls := by
  induction ls generalizing n with
  | nil => rfl
  | cons line rest ih =>
      simp only [renumberLines, rewriteLine_rewriteLine, numberAfter_rewriteLine digit,
        ih (numberAfter_le n line)]

theorem newline_notMem_lines (text : Text) : ∀ line ∈ lines text, newline ∉ line := by
  intro line member
  obtain ⟨first, fresh, ⟨text_eq, lines_eq⟩ | ⟨tail, text_eq, lines_eq⟩⟩ := lines_cases text
  · rw [lines_eq, List.mem_singleton] at member
    exact member ▸ fresh
  · rw [lines_eq] at member
    rcases List.mem_cons.mp member with rfl | later
    · exact fresh
    · have shorter : tail.length < text.length := by
        rw [text_eq]
        simp
        omega
      exact newline_notMem_lines tail line later
termination_by text.length

theorem lines_renumbered (text : Text) :
    lines (renumbered text) = renumberLines 1 (lines text) := by
  rw [renumbered_eq]
  apply List.splitOn_intercalate
  · exact newline_notMem_renumberLines (by decide) (newline_notMem_lines text)
  · rw [← List.length_pos_iff, length_renumberLines, List.length_pos_iff]
    exact lines_ne_nil text

/-- A rewritten digit is a digit, so renumbering is a fixed point. -/
theorem renumbered_renumbered (text : Text) : renumbered (renumbered text) = renumbered text := by
  rw [renumbered_eq (renumbered text), lines_renumbered,
    renumberLines_renumberLines (by decide), ← renumbered_eq]

theorem isListLine_cons_succ (line : Text) (rest : List Text) (k : Nat) :
    IsListLine (line :: rest) (k + 1) ↔ IsListLine rest k :=
  Iff.rfl

/-- In a fixed point every suffix is a fixed point, for the number that its
first line would receive. -/
theorem renumberLines_drop_fixed {n : Nat} {ls : List Text} (fixed : renumberLines n ls = ls)
    (first : Nat) (starts : (first = 0 ∧ n = 1) ∨ (0 < first ∧ ¬IsListLine ls (first - 1))) :
    renumberLines 1 (ls.drop first) = ls.drop first := by
  induction ls generalizing n first with
  | nil => simp [renumberLines]
  | cons line rest ih =>
      obtain ⟨-, rest_fixed⟩ := List.cons.inj fixed
      rcases starts with ⟨rfl, rfl⟩ | ⟨positive, other⟩
      · exact fixed
      · obtain ⟨previous, rfl⟩ : ∃ previous, first = previous + 1 := ⟨first - 1, by omega⟩
        rw [Nat.add_sub_cancel] at other
        rw [List.drop_succ_cons]
        cases previous with
        | zero =>
            have after : numberAfter n line = 1 := if_neg other
            exact ih rest_fixed 0 (.inl ⟨rfl, after⟩)
        | succ previous =>
            exact ih rest_fixed (previous + 1) (.inr ⟨by omega, other⟩)

/-- At the head of a fixed point the numbers count up from the first one. -/
theorem number_of_fixed {n : Nat} (digit : n ≤ 9) {ls : List Text}
    (fixed : renumberLines n ls = ls) (k : Nat) (run : ∀ j ≤ k, IsListLine ls j) :
    isOrderedListLine (ls.getD k []) = some (min (n + k) 9) := by
  induction ls generalizing n k with
  | nil => exact absurd (run 0 (by omega)) (by decide)
  | cons line rest ih =>
      obtain ⟨line_fixed, rest_fixed⟩ := List.cons.inj fixed
      have listLine : (isOrderedListLine line).isSome = true := run 0 (by omega)
      cases k with
      | zero =>
          have number := isOrderedListLine_rewriteLine digit line
          rw [line_fixed, if_pos listLine] at number
          simpa [Nat.min_eq_left digit] using number
      | succ k =>
          have after : numberAfter n line = min (n + 1) 9 := if_pos listLine
          rw [after] at rest_fixed
          have later := ih (by omega) rest_fixed k fun j le =>
            (isListLine_cons_succ line rest j).mp (run (j + 1) (by omega))
          rw [List.getD_cons_succ, later]
          congr 1
          omega

/-- A text that renumbering leaves alone has its lists in order. -/
theorem numberedInOrder_of_fixed {text : Text} (fixed : renumbered text = text) :
    NumberedInOrder (lines text) := by
  have lines_fixed : renumberLines 1 (lines text) = lines text := by
    rw [← lines_renumbered, fixed]
  intro first k le run starts
  have suffix_fixed := renumberLines_drop_fixed lines_fixed first <| by
    rcases starts with rfl | other
    · exact .inl ⟨rfl, rfl⟩
    · rcases Nat.eq_zero_or_pos first with rfl | positive
      · exact .inl ⟨rfl, rfl⟩
      · exact .inr ⟨positive, other⟩
  have shift (j : Nat) :
      (lines text).getD (first + j) [] = ((lines text).drop first).getD j [] := by
    simp [List.getD_eq_getElem?_getD]
  have number := number_of_fixed (by decide) suffix_fixed (k - first) fun j inside => by
    have listLine := run (first + j) (by omega) (by omega)
    rwa [IsListLine, shift] at listLine
  rw [← shift, Nat.add_sub_cancel' le] at number
  rw [number, Nat.add_comm]

/-! ## Texts that renumber alike -/

/-- Two lines that differ at most in the digit of a list line. -/
def SameLine (first second : Text) : Prop :=
  first = second ∨
    (isOrderedListLine first).isSome ∧ (isOrderedListLine second).isSome ∧
      first.drop 1 = second.drop 1

/-- Two texts that differ at most in the digits of their list lines. -/
def SameUpToNumbers (first second : Text) : Prop :=
  List.Forall₂ SameLine (lines first) (lines second)

instance (first second : Text) : Decidable (SameLine first second) :=
  inferInstanceAs (Decidable (_ ∨ _))

instance (first second : Text) : Decidable (SameUpToNumbers first second) :=
  inferInstanceAs (Decidable (List.Forall₂ SameLine (lines first) (lines second)))

theorem SameLine.numberAfter_eq {first second : Text} (same : SameLine first second) (n : Nat) :
    numberAfter n first = numberAfter n second := by
  rcases same with rfl | ⟨firstList, secondList, -⟩
  · rfl
  · rw [numberAfter, if_pos firstList, numberAfter, if_pos secondList]

theorem rewriteLine_eq_iff {n : Nat} (digit : n ≤ 9) (first second : Text) :
    rewriteLine n first = rewriteLine n second ↔ SameLine first second := by
  constructor
  · intro equal
    have recognised := congrArg isOrderedListLine equal
    rw [isOrderedListLine_rewriteLine digit, isOrderedListLine_rewriteLine digit] at recognised
    by_cases firstList : (isOrderedListLine first).isSome = true <;>
      by_cases secondList : (isOrderedListLine second).isSome = true
    · right
      refine ⟨firstList, secondList, ?_⟩
      simpa [rewriteLine, firstList, secondList, setNumber] using equal
    · simp [firstList, secondList] at recognised
    · simp [firstList, secondList] at recognised
    · left
      simpa [rewriteLine, firstList, secondList] using equal
  · rintro (rfl | ⟨firstList, secondList, tails⟩)
    · rfl
    · rw [rewriteLine, if_pos firstList, rewriteLine, if_pos secondList, setNumber, setNumber,
        tails]

theorem renumberLines_eq_iff {n : Nat} (digit : n ≤ 9) (first second : List Text) :
    renumberLines n first = renumberLines n second ↔ List.Forall₂ SameLine first second := by
  induction first generalizing n second with
  | nil => cases second <;> simp [renumberLines]
  | cons line rest ih =>
      cases second with
      | nil => simp [renumberLines]
      | cons other others =>
          rw [List.forall₂_cons, renumberLines, renumberLines, List.cons.injEq,
            rewriteLine_eq_iff digit]
          constructor
          · rintro ⟨same, later⟩
            rw [same.numberAfter_eq n] at later
            exact ⟨same, (ih (numberAfter_le n other) others).mp later⟩
          · rintro ⟨same, later⟩
            rw [same.numberAfter_eq n]
            exact ⟨same, (ih (numberAfter_le n other) others).mpr later⟩

/-- Renumbering forgets the digits of list lines and nothing else. -/
theorem renumbered_eq_iff (first second : Text) :
    renumbered first = renumbered second ↔ SameUpToNumbers first second := by
  rw [SameUpToNumbers, ← renumberLines_eq_iff (by decide : 1 ≤ 9)]
  constructor
  · intro equal
    rw [← lines_renumbered, ← lines_renumbered, equal]
  · intro equal
    rw [renumbered_eq, renumbered_eq, equal]

/-- The byte at an offset is the digit of a list line. -/
def NumberAt (text : Text) (i : Nat) : Prop :=
  (i = 0 ∨ text[i - 1]? = some newline) ∧ (isOrderedListLine (text.drop i)).isSome

instance (text : Text) (i : Nat) : Decidable (NumberAt text i) :=
  inferInstanceAs (Decidable (_ ∧ _))

/-- Two texts that agree in every byte that is not the digit of a list line in both. -/
def AgreeButNumbers (first second : Text) : Prop :=
  first.length = second.length ∧
    ∀ i < first.length, first[i]? = second[i]? ∨ NumberAt first i ∧ NumberAt second i

/-- In the first line of a text the first byte alone can be a number. -/
theorem numberAt_line_iff {line tail : Text} (fresh : newline ∉ line)
    (stops : tail = [] ∨ ∃ rest, tail = newline :: rest) {i : Nat} (inside : i ≤ line.length) :
    NumberAt (line ++ tail) i ↔ i = 0 ∧ (isOrderedListLine line).isSome := by
  constructor
  · rintro ⟨starts, found⟩
    rcases Nat.eq_zero_or_pos i with rfl | positive
    · rw [List.drop_zero, isOrderedListLine_append stops] at found
      exact ⟨rfl, found⟩
    · have before : (line ++ tail)[i - 1]? = some newline := starts.resolve_left (by omega)
      rw [List.getElem?_append_left (by omega)] at before
      exact absurd (List.mem_of_getElem? before) fresh
  · rintro ⟨rfl, found⟩
    refine ⟨.inl rfl, ?_⟩
    rwa [List.drop_zero, isOrderedListLine_append stops]

/-- Behind the first line the numbers are those of the rest. -/
theorem numberAt_tail_iff (line tail : Text) (j : Nat) :
    NumberAt (line ++ newline :: tail) (line.length + 1 + j) ↔ NumberAt tail j := by
  have length_eq : (line ++ [newline]).length = line.length + 1 := by simp
  have rest : (line ++ newline :: tail).drop (line.length + 1 + j) = tail.drop j := by
    rw [← List.drop_drop, List.append_cons, ← length_eq, List.drop_left]
  rw [NumberAt, NumberAt, rest]
  apply and_congr_left
  intro _
  cases j with
  | zero => simp
  | succ j =>
      have before : line.length + 1 + (j + 1) - 1 = (line ++ [newline]).length + j := by omega
      rw [before, List.append_cons, List.getElem?_append_right (Nat.le_add_right ..)]
      simp

/-- A number is no newline. -/
theorem NumberAt.getElem?_ne {text : Text} {i : Nat} (number : NumberAt text i) :
    text[i]? ≠ some newline := by
  obtain ⟨n, found⟩ := Option.isSome_iff_exists.mp number.2
  obtain ⟨digit, rest, text_eq, isDigit, -⟩ := eq_cons_of_isOrderedListLine found
  have here : text[i]? = some digit := by
    rw [← List.head?_drop, text_eq, List.head?_cons]
  rw [here]
  rintro ⟨⟩
  contradiction

theorem AgreeButNumbers.symm {first second : Text} (agree : AgreeButNumbers first second) :
    AgreeButNumbers second first :=
  ⟨agree.1.symm, fun i inside => (agree.2 i (agree.1 ▸ inside)).imp Eq.symm And.symm⟩

theorem AgreeButNumbers.newline_iff {first second : Text} (agree : AgreeButNumbers first second)
    (i : Nat) : first[i]? = some newline ↔ second[i]? = some newline := by
  obtain ⟨length_eq, bytes⟩ := agree
  by_cases inside : i < first.length
  · rcases bytes i inside with same | ⟨one, two⟩
    · rw [same]
    · exact iff_of_false one.getElem?_ne two.getElem?_ne
  · rw [List.getElem?_eq_none (by omega), List.getElem?_eq_none (by omega)]

theorem AgreeButNumbers.newline_mem_iff {first second : Text}
    (agree : AgreeButNumbers first second) : newline ∈ first ↔ newline ∈ second := by
  simp only [List.mem_iff_getElem?, agree.newline_iff]

/-- One line. -/
theorem sameLine_iff {first second : Text} (freshFirst : newline ∉ first) :
    SameLine first second ↔ AgreeButNumbers first second := by
  constructor
  · rintro (rfl | ⟨firstList, secondList, tails⟩)
    · exact ⟨rfl, fun _ _ => .inl rfl⟩
    · obtain ⟨n, foundFirst⟩ := Option.isSome_iff_exists.mp firstList
      obtain ⟨m, foundSecond⟩ := Option.isSome_iff_exists.mp secondList
      obtain ⟨digit, rest, rfl, -, -⟩ := eq_cons_of_isOrderedListLine foundFirst
      obtain ⟨digit', rest', rfl, -, -⟩ := eq_cons_of_isOrderedListLine foundSecond
      rw [List.drop_one, List.drop_one, List.tail_cons, List.tail_cons] at tails
      rw [tails]
      refine ⟨rfl, fun i _ => ?_⟩
      cases i with
      | zero => exact .inr ⟨⟨.inl rfl, tails ▸ firstList⟩, .inl rfl, secondList⟩
      | succ i => exact .inl rfl
  · rintro ⟨length_eq, bytes⟩
    have later (i : Nat) : (first.drop 1)[i]? = (second.drop 1)[i]? := by
      rw [List.getElem?_drop, List.getElem?_drop]
      by_cases inside : 1 + i < first.length
      · refine (bytes (1 + i) inside).resolve_right fun numbers => ?_
        have own := numbers.1
        rw [← List.append_nil first, numberAt_line_iff freshFirst (.inl rfl) inside.le] at own
        omega
      · rw [List.getElem?_eq_none (by omega), List.getElem?_eq_none (by omega)]
    have tails := List.ext_getElem? later
    match first, second with
    | [], [] => exact .inl rfl
    | a :: first, b :: second =>
        rcases bytes 0 (Nat.zero_lt_succ _) with same | ⟨one, two⟩
        · exact .inl (congrArg₂ List.cons (Option.some.inj same) tails)
        · exact .inr ⟨one.2, two.2, tails⟩

/-- Texts that agree have their first newlines in one place. -/
theorem AgreeButNumbers.length_line_le {line line' tail tail' : Text} (fresh : newline ∉ line')
    (agree : AgreeButNumbers (line ++ newline :: tail) (line' ++ tail')) :
    line'.length ≤ line.length := by
  by_contra shorter
  have here := (agree.newline_iff line.length).mp (by simp)
  rw [List.getElem?_append_left (by omega)] at here
  exact fresh (List.mem_of_getElem? here)

/-- Behind a line come a newline and the rest. -/
theorem getElem?_tail (line tail : Text) (j : Nat) :
    (line ++ newline :: tail)[line.length + 1 + j]? = tail[j]? := by
  rw [List.getElem?_append_right (by omega)]
  have place : line.length + 1 + j - line.length = j + 1 := by omega
  rw [place, List.getElem?_cons_succ]

/-- Texts with a first line each agree if and only if these lines and the rests do. -/
theorem agreeButNumbers_append {line line' tail tail' : Text} (fresh : newline ∉ line)
    (fresh' : newline ∉ line') :
    AgreeButNumbers (line ++ newline :: tail) (line' ++ newline :: tail') ↔
      AgreeButNumbers line line' ∧ AgreeButNumbers tail tail' := by
  have numbers {l t : Text} (fresh : newline ∉ l) {i : Nat} (inside : i ≤ l.length) :
      NumberAt (l ++ newline :: t) i ↔ NumberAt l i := by
    have alone := numberAt_line_iff fresh (.inl rfl) inside
    rw [List.append_nil] at alone
    exact (numberAt_line_iff fresh (.inr ⟨t, rfl⟩) inside).trans alone.symm
  constructor
  · intro agree
    have same : line.length = line'.length :=
      Nat.le_antisymm (agree.symm.length_line_le fresh) (agree.length_line_le fresh')
    have length_eq := agree.1
    simp only [List.length_append, List.length_cons] at length_eq
    refine ⟨⟨same, fun i inside => ?_⟩, by omega, fun j inside => ?_⟩
    · have here := agree.2 i (by simp only [List.length_append]; omega)
      rwa [List.getElem?_append_left inside, List.getElem?_append_left (same ▸ inside),
        numbers fresh inside.le, numbers fresh' (same ▸ inside.le)] at here
    · have here := agree.2 (line.length + 1 + j) (by
        simp only [List.length_append, List.length_cons]
        omega)
      rw [getElem?_tail, numberAt_tail_iff] at here
      rwa [same, getElem?_tail, numberAt_tail_iff] at here
  · rintro ⟨⟨same, bytes⟩, length_eq, bytes'⟩
    refine ⟨by simp only [List.length_append, List.length_cons]; omega, fun i inside => ?_⟩
    rcases Nat.lt_trichotomy i line.length with before | rfl | behind
    · rw [List.getElem?_append_left before, List.getElem?_append_left (same ▸ before),
        numbers fresh before.le, numbers fresh' (same ▸ before.le)]
      exact bytes i before
    · exact .inl (by simp [same])
    · obtain ⟨j, rfl⟩ : ∃ j, i = line.length + 1 + j := ⟨i - (line.length + 1), by omega⟩
      rw [getElem?_tail, numberAt_tail_iff, same, getElem?_tail, numberAt_tail_iff]
      simp only [List.length_append, List.length_cons] at inside
      exact bytes' j (by omega)

/-- Texts are the same up to numbers if and only if they agree byte by byte but for
numbers. -/
theorem sameUpToNumbers_iff (first second : Text) :
    SameUpToNumbers first second ↔ AgreeButNumbers first second := by
  obtain ⟨line, fresh, own⟩ := lines_cases first
  obtain ⟨line', fresh', own'⟩ := lines_cases second
  rcases own with ⟨rfl, lines_eq⟩ | ⟨tail, rfl, lines_eq⟩ <;>
    rcases own' with ⟨rfl, lines_eq'⟩ | ⟨tail', rfl, lines_eq'⟩ <;>
      rw [SameUpToNumbers, lines_eq, lines_eq']
  · rw [List.forall₂_cons, and_iff_left List.Forall₂.nil, sameLine_iff fresh]
  · exact iff_of_false (by simp [lines_ne_nil]) fun agree =>
      fresh (agree.newline_mem_iff.mpr (by simp))
  · exact iff_of_false (by simp [lines_ne_nil]) fun agree =>
      fresh' (agree.newline_mem_iff.mp (by simp))
  · rw [List.forall₂_cons, agreeButNumbers_append fresh fresh', sameLine_iff fresh]
    exact and_congr_right fun _ => sameUpToNumbers_iff tail tail'
termination_by first.length

theorem length_rewriteLine (n : Nat) (line : Text) :
    (rewriteLine n line).length = line.length := by
  unfold rewriteLine
  split
  case isTrue listLine =>
    obtain ⟨old, found⟩ := Option.isSome_iff_exists.mp listLine
    obtain ⟨digit, rest, rfl, -⟩ := eq_cons_of_isOrderedListLine found
    rfl
  case isFalse => rfl

theorem length_unlines_renumberLines (n : Nat) (ls : List Text) :
    (unlines (renumberLines n ls)).length = (unlines ls).length := by
  induction ls generalizing n with
  | nil => rfl
  | cons line rest ih =>
      cases rest with
      | nil => simpa [renumberLines, unlines] using length_rewriteLine n line
      | cons next later =>
          rw [renumberLines, unlines_cons (by simp [renumberLines]), unlines_cons (by simp)]
          simp [length_rewriteLine, ih]

@[simp]
theorem length_renumbered (text : Text) : (renumbered text).length = text.length := by
  rw [renumbered_eq, length_unlines_renumberLines, unlines_lines]

end CollabMarkdown.Markdown
