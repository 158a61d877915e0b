import Mathlib.Data.List.Induction
import CollabMarkdown.Markdown.OrderedList

/-!
# What renumbering does to a text

Renumbering described without its loop and counters: a list line receives its place
in the run of list lines it belongs to, nine at most, and everything else stays.
Since the place in a run looks no further back than the line before the run, a line
of any other kind cuts the text into parts that are numbered on their own.
-/

namespace CollabMarkdown.Markdown

open CollabMarkdown.CString

/-! ## The description -/

/-- A line that begins with a digit, a dot and a space. -/
def beginsNumbered : Text → Bool
  | digit :: dot :: blank :: _ => isdigit digit && dot == 46 && blank == space
  | _ => false

/-- How many numbered lines stand at the end of a list of lines. -/
def runLength (ls : List Text) : Nat :=
  (ls.reverse.takeWhile beginsNumbered).length

/-- The place of line `i` in the run of numbered lines it ends, counted from one. -/
def placeInRun (ls : List Text) (i : Nat) : Nat :=
  runLength (ls.take (i + 1))

/-- The output is the input with every numbered line numbered by its place in its
run. -/
structure NumberedFrom (input output : Text) : Prop where
  length_eq : output.length = input.length
  newlines : ∀ i : Nat, output[i]? = some newline ↔ input[i]? = some newline
  lines_eq : ∀ i line, (lines input)[i]? = some line →
    (lines output)[i]? =
      some (if beginsNumbered line then
        UInt8.ofNat (48 + min (placeInRun (lines input) i) 9) :: line.tail else line)

/-! ## Lines and runs -/

theorem isSome_isOrderedListLine (line : Text) :
    (isOrderedListLine line).isSome = beginsNumbered line := by
  match line with
  | [] => rfl
  | [a] => simp [isOrderedListLine, beginsNumbered]
  | [a, b] => simp [isOrderedListLine, beginsNumbered, space]
  | a :: b :: c :: rest =>
      simp only [isOrderedListLine, beginsNumbered, byteAt_cons_zero, byteAt_cons_succ]
      by_cases digit : isdigit a = true <;> by_cases dot : b = 46 <;> by_cases blank : c = space <;>
        simp [digit, dot, blank]

theorem runLength_concat (ls : List Text) (line : Text) :
    runLength (ls ++ [line]) = if beginsNumbered line then runLength ls + 1 else 0 := by
  rw [runLength, List.reverse_concat, List.takeWhile_cons]
  split <;> rfl

/-- The number after some lines is the place a numbered line would have there. -/
theorem foldl_numberAfter (ls : List Text) :
    ls.foldl numberAfter 1 = min (runLength ls + 1) 9 := by
  induction ls using List.reverseRecOn with
  | nil => rfl
  | append_singleton ls line ih =>
      rw [List.foldl_concat, ih, numberAfter, isSome_isOrderedListLine, runLength_concat]
      split <;> omega

theorem getElem?_renumberLines (n : Nat) (ls : List Text) (i : Nat) :
    (renumberLines n ls)[i]? = ls[i]?.map (rewriteLine ((ls.take i).foldl numberAfter n)) := by
  induction ls generalizing n i with
  | nil => simp [renumberLines]
  | cons line rest ih =>
      cases i with
      | zero => rfl
      | succ i => simp [renumberLines, ih]

/-- A line of the result, by its place in its run. -/
theorem getElem?_lines_renumbered {text line : Text} {i : Nat}
    (found : (lines text)[i]? = some line) :
    (lines (renumbered text))[i]? =
      some (if beginsNumbered line then
        UInt8.ofNat (48 + min (placeInRun (lines text) i) 9) :: line.tail else line) := by
  have place : placeInRun (lines text) i =
      if beginsNumbered line then runLength ((lines text).take i) + 1 else 0 := by
    rw [placeInRun, List.take_add_one, found]
    exact runLength_concat _ _
  rw [lines_renumbered, getElem?_renumberLines, found, Option.map_some, foldl_numberAfter,
    rewriteLine, isSome_isOrderedListLine, place]
  split
  · rw [setNumber, List.drop_one]
  · rfl

/-- Rewritten lines leave the newlines between them where they are. -/
theorem newline_at_renumberLines {n : Nat} (digit : n ≤ 9) {ls : List Text}
    (fresh : ∀ line ∈ ls, newline ∉ line) (i : Nat) :
    (unlines (renumberLines n ls))[i]? = some newline ↔ (unlines ls)[i]? = some newline := by
  induction ls generalizing n i with
  | nil => rfl
  | cons line rest ih =>
      have absent : newline ∉ line := fresh line List.mem_cons_self
      have absent' : newline ∉ rewriteLine n line := newline_notMem_rewriteLine digit absent
      have none_at {text : Text} (absent : newline ∉ text) (i : Nat) :
          ¬text[i]? = some newline := fun found => absent (List.mem_of_getElem? found)
      cases rest with
      | nil =>
          simp only [renumberLines, unlines, List.intercalate_singleton]
          exact iff_of_false (none_at absent' i) (none_at absent i)
      | cons next later =>
          have same := length_rewriteLine n line
          rw [renumberLines, unlines_cons (by simp [renumberLines]), unlines_cons (by simp)]
          rcases Nat.lt_trichotomy i line.length with before | rfl | behind
          · rw [List.getElem?_append_left before, List.getElem?_append_left (by omega)]
            exact iff_of_false (none_at absent' i) (none_at absent i)
          · rw [List.getElem?_append_right (by omega), List.getElem?_append_right (by omega), same]
            simp
          · obtain ⟨j, rfl⟩ := Nat.exists_eq_add_of_lt behind
            rw [List.getElem?_append_right (by omega), List.getElem?_append_right (by omega), same,
              Nat.add_assoc, Nat.add_sub_cancel_left, List.getElem?_cons_succ,
              List.getElem?_cons_succ]
            exact ih (numberAfter_le n line)
              (fun other member => fresh other (List.mem_cons_of_mem line member)) j

theorem numberedFrom_renumbered (text : Text) : NumberedFrom text (renumbered text) where
  length_eq := length_renumbered text
  newlines i := by
    rw [renumbered_eq, newline_at_renumberLines (by decide) (newline_notMem_lines text),
      unlines_lines]
  lines_eq _ _ := getElem?_lines_renumbered

/-! ## The loop ends -/

/-- Every iteration of the loop advances, so its bound is never what stops it. -/
theorem length_le_renumberLoop (text : Text) (fuel : Nat) (st : RenumberState)
    (enough : text.length - st.i ≤ fuel) : text.length ≤ (renumberLoop text fuel st).i := by
  induction fuel generalizing st with
  | zero =>
      rw [renumberLoop]
      omega
  | succ fuel ih =>
      unfold renumberLoop
      split
      case isFalse stopped => omega
      case isTrue inside =>
        apply ih
        obtain ⟨line, fresh, ⟨rest_eq, -⟩ | ⟨tail, rest_eq, -⟩⟩ := lines_cases (text.drop st.i)
        · rw [← List.append_nil line] at rest_eq
          have length_eq := congrArg List.length rest_eq
          simp only [List.length_drop, List.append_nil] at length_eq
          rw [renumberStep_eq rest_eq fresh (.inl rfl)]
          simp only
          omega
        · rw [renumberStep_eq rest_eq fresh (.inr ⟨tail, rfl⟩)]
          simp only [List.take_succ_cons, List.length_cons]
          omega

/-! ## Parts of a text -/

theorem lines_unlines {ls : List Text} (nonempty : ls ≠ [])
    (fresh : ∀ line ∈ ls, newline ∉ line) : lines (unlines ls) = ls :=
  List.splitOn_intercalate newline fresh nonempty

theorem take_renumberLines (n : Nat) (ls : List Text) (i : Nat) :
    (renumberLines n ls).take i = renumberLines n (ls.take i) := by
  induction ls generalizing n i with
  | nil => simp [renumberLines]
  | cons line rest ih =>
      cases i with
      | zero => rfl
      | succ i => simp [renumberLines, ih]

theorem drop_renumberLines (n : Nat) (ls : List Text) (i : Nat) :
    (renumberLines n ls).drop i = renumberLines ((ls.take i).foldl numberAfter n) (ls.drop i) := by
  induction ls generalizing n i with
  | nil => simp [renumberLines]
  | cons line rest ih =>
      cases i with
      | zero => rfl
      | succ i => simp [renumberLines, ih]

/-- Renumbering terminates and numbers every line by its place in its run.  The lines
in front of a line of any other kind, and those behind it, are numbered as texts of
their own. -/
theorem renumbered_spec (text : Text) :
    Id.run (renumberOrderedLists text) = some (renumbered text) ∧
      text.length ≤ (renumberLoop text text.length renumberStart).i ∧
      NumberedFrom text (renumbered text) ∧
      ∀ i line, (lines text)[i]? = some line → beginsNumbered line = false →
        (0 < i → (lines (renumbered text)).take i =
          lines (renumbered (unlines ((lines text).take i)))) ∧
        (i + 1 < (lines text).length → (lines (renumbered text)).drop (i + 1) =
          lines (renumbered (unlines ((lines text).drop (i + 1))))) := by
  refine ⟨run_renumberOrderedLists text, length_le_renumberLoop text _ _ (by simp),
    numberedFrom_renumbered text, ?_⟩
  intro i line found other
  have inside : i < (lines text).length := (List.getElem?_eq_some_iff.mp found).1
  have fresh := newline_notMem_lines text
  constructor
  · intro positive
    rw [lines_renumbered, lines_renumbered, take_renumberLines, lines_unlines]
    · simpa [List.take_eq_nil_iff] using ⟨by omega, lines_ne_nil text⟩
    · exact fun line member => fresh line (List.mem_of_mem_take member)
  · intro more
    have one : ((lines text).take (i + 1)).foldl numberAfter 1 = 1 := by
      rw [List.take_add_one, found, Option.toList_some, List.foldl_concat, numberAfter,
        isSome_isOrderedListLine, other]
      rfl
    rw [lines_renumbered, lines_renumbered, drop_renumberLines, one, lines_unlines]
    · simpa [List.drop_eq_nil_iff] using more
    · exact fun line member => fresh line (List.mem_of_mem_drop member)

example : renumbered (ascii "7. a\n3. b\n\n0. c\n5.d") = ascii "1. a\n2. b\n\n1. c\n5.d" := by
  decide

end CollabMarkdown.Markdown
