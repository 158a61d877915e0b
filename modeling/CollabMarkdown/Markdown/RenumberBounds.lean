import CollabMarkdown.CString.Memory
import CollabMarkdown.Markdown.OrderedList

/-!
# The memory accesses of `renumber_ordered_lists`

The renumbering once more, on blocks of memory with every access checked: the
text with its terminator, and a buffer of the same size that holds anything at
first.  The test for a list line is given no length, and the loop writes three
bytes before it looks at the length of the line.  It stays inside both blocks
all the same, and leaves there the text that the renumbering of the text gives.
-/

namespace CollabMarkdown.Markdown

open CollabMarkdown.CString

/-! ## The source with checked accesses -/

/-- `is_ordered_list_line` on the line at an offset; absent when it reads outside the
block. -/
def isOrderedListLineAt {size : Nat} (text : Block size) (line : Nat) : Option (Option Nat) := do
  let digit ← text.load line
  if !isdigit digit then
    return none
  else
    let dot ← text.load (line + 1)
    if dot != 46 then
      return none
    else
      let blank ← text.load (line + 2)
      if blank != space then
        return none
      else
        return some (digit.toNat - 48)

/-- The inner loop, with a bound on its iterations. -/
def scanLine {size : Nat} (text : Block size) (inLen : Nat) : Nat → Nat → Option Nat
  | 0, lineStop => return lineStop
  | fuel + 1, lineStop =>
      if lineStop < inLen then do
        if (← text.load lineStop) != newline then
          scanLine text inLen fuel (lineStop + 1)
        else
          return lineStop
      else
        return lineStop

/-- The variables of the outer loop and its output buffer. -/
structure RenumberMemory (size : Nat) where
  i : Nat
  outPos : Nat
  currentListNo : Nat
  inOrderedBlock : Bool
  out : Block size

/-- Copy `count` bytes of the text behind the output. -/
def RenumberMemory.copy {size : Nat} (st : RenumberMemory size) (text : Block size)
    (offset count : Nat) : Option (RenumberMemory size) := do
  let out ← st.out.memcpy st.outPos text offset count
  return { st with out, outPos := st.outPos + count }

/-- Put one byte behind the output. -/
def RenumberMemory.put {size : Nat} (st : RenumberMemory size) (c : Byte) :
    Option (RenumberMemory size) := do
  let out ← st.out.store st.outPos c
  return { st with out, outPos := st.outPos + 1 }

/-- The part of an iteration that copies a line. -/
def renumberLineIn {size : Nat} (text : Block size) (st : RenumberMemory size) (lineLen : Nat) :
    Option (RenumberMemory size) := do
  let line := st.i
  match ← isOrderedListLineAt text line with
  | some _ =>
      let currentListNo := if st.inOrderedBlock then st.currentListNo else 1
      let st ← st.put (UInt8.ofNat (48 + currentListNo))
      let st ← st.put 46
      let st ← st.put space
      let st ← if 3 < lineLen then st.copy text (line + 3) (sizeSub lineLen 3) else pure st
      return { st with
        currentListNo := if 9 < currentListNo + 1 then 9 else currentListNo + 1
        inOrderedBlock := true }
  | none =>
      let st ← if 0 < lineLen then st.copy text line lineLen else pure st
      return { st with inOrderedBlock := false }

/-- One iteration of the outer loop; absent when it accesses memory outside a block. -/
def renumberIteration {size : Nat} (text : Block size) (inLen : Nat) (st : RenumberMemory size) :
    Option (RenumberMemory size) := do
  let lineStart := st.i
  let lineStop ← scanLine text inLen (inLen - lineStart) lineStart
  let st ← renumberLineIn text st (sizeSub lineStop lineStart)
  if lineStop < inLen then
    if (← text.load lineStop) = newline then
      let st ← st.put newline
      return { st with i := lineStop + 1 }
    else
      return { st with i := lineStop }
  else
    return { st with i := lineStop }

/-- The outer loop, with a bound on its iterations. -/
def renumberIterations {size : Nat} (text : Block size) (inLen : Nat) :
    Nat → RenumberMemory size → Option (RenumberMemory size)
  | 0, st => return st
  | fuel + 1, st =>
      if st.i < inLen then do
        renumberIterations text inLen fuel (← renumberIteration text inLen st)
      else
        return st

/-- The loop variables in front of the loop. -/
def renumberEntry {size : Nat} (out : Block size) : RenumberMemory size :=
  ⟨0, 0, 1, false, out⟩

/-- `renumber_ordered_lists` on a fresh buffer. -/
def renumberInMemory (text : Text) (fresh : Block (text.length + 1)) :
    Option (Block (text.length + 1)) := do
  let st ← renumberIterations (.ofText text) text.length text.length (renumberEntry fresh)
  st.out.store st.outPos 0

/-- The states of the outer loop at the head of an iteration. -/
inductive AtHead (text : Text) : RenumberMemory (text.length + 1) → Prop where
  | entry (fresh : Block (text.length + 1)) : AtHead text (renumberEntry fresh)
  | next {st st' : RenumberMemory (text.length + 1)} (head : AtHead text st)
      (inside : st.i < text.length)
      (iteration : renumberIteration (.ofText text) text.length st = some st') : AtHead text st'

/-! ## Reading a line -/

theorem byteAt_drop (text : Text) (i k : Nat) : byteAt (text.drop i) k = byteAt text (i + k) := by
  simp [byteAt, List.getD_eq_getElem?_getD]

/-- A byte that is not NUL lies in front of the terminator. -/
theorem lt_length_of_byteAt_ne_zero {text : Text} {k : Nat} (there : byteAt text k ≠ 0) :
    k < text.length := by
  by_contra outside
  apply there
  rw [byteAt, List.getD_eq_getElem?_getD, List.getElem?_eq_none (Nat.le_of_not_lt outside),
    Option.getD_none]

/-- The test for a list line reads no further than the terminator. -/
theorem isOrderedListLineAt_eq {text : Text} {i : Nat} (inside : i ≤ text.length) :
    isOrderedListLineAt (.ofText text) i = some (isOrderedListLine (text.drop i)) := by
  simp only [isOrderedListLineAt, isOrderedListLine, byteAt_drop, Nat.add_zero,
    Block.load_ofText inside, Option.bind_eq_bind, Option.bind_some]
  by_cases digit : isdigit (byteAt text i) = true
  · have first : i < text.length := by
      apply lt_length_of_byteAt_ne_zero
      intro zero
      rw [zero] at digit
      exact absurd digit (by decide)
    simp only [digit, Bool.not_true, Bool.false_eq_true, if_false, Block.load_ofText first,
      Option.bind_some]
    by_cases dot : byteAt text (i + 1) = 46
    · have second : i + 1 < text.length := by
        apply lt_length_of_byteAt_ne_zero
        rw [dot]
        decide
      simp only [dot, Block.load_ofText second, Option.bind_some]
      by_cases blank : byteAt text (i + 2) = space <;> simp [blank]
    · simp [dot]
  · simp [digit]

theorem lineEnd_of_lt {text : Text} {i : Nat} (inside : i < text.length) :
    lineEnd text i = if byteAt text i != newline then lineEnd text (i + 1) else i := by
  have here : byteAt text i = text[i] := by
    rw [byteAt, List.getD_eq_getElem?_getD, List.getElem?_eq_getElem inside, Option.getD_some]
  rw [here, lineEnd, lineEnd, List.drop_eq_getElem_cons inside, List.takeWhile_cons]
  split
  · rw [List.length_cons]
    omega
  · simp

/-- The inner loop reads no further than the terminator and finds the end of the
line. -/
theorem scanLine_eq {text : Text} {i fuel : Nat} (inside : i ≤ text.length)
    (enough : text.length - i ≤ fuel) :
    scanLine (.ofText text) text.length fuel i = some (lineEnd text i) := by
  have atEnd {i : Nat} (past : text.length ≤ i) : lineEnd text i = i := by
    rw [lineEnd, List.drop_eq_nil_of_le past]
    rfl
  induction fuel generalizing i with
  | zero =>
      rw [scanLine, atEnd (by omega)]
      rfl
  | succ fuel ih =>
      unfold scanLine
      by_cases more : i < text.length
      · rw [if_pos more, Block.load_ofText inside, lineEnd_of_lt more]
        by_cases stop : byteAt text i = newline
        · simp [stop]
        · simpa [stop] using ih more (by omega)
      · rw [if_neg more, atEnd (by omega)]
        rfl

theorem lineEnd_le {text : Text} {i : Nat} (inside : i ≤ text.length) :
    i ≤ lineEnd text i ∧ lineEnd text i ≤ text.length := by
  have shorter := (List.takeWhile_sublist (· != newline) (l := text.drop i)).length_le
  rw [List.length_drop] at shorter
  rw [lineEnd]
  omega

/-- A list line has three characters in front of its newline or the terminator. -/
theorem three_le_of_isOrderedListLine {text : Text} {i n : Nat}
    (listLine : isOrderedListLine (text.drop i) = some n) : i + 3 ≤ lineEnd text i := by
  obtain ⟨digit, rest, rest_eq, isDigit, -⟩ := eq_cons_of_isOrderedListLine listLine
  have first : digit ≠ newline := by
    rintro rfl
    exact absurd isDigit (by decide)
  simp [lineEnd, rest_eq, first, newline, space]

/-! ## One iteration -/

/-- The loop on memory stands where the loop on texts does, with the output of that one
at the front of its buffer. -/
structure RenumberMemory.Follows {size : Nat} (st : RenumberMemory size) (st' : RenumberState) :
    Prop where
  i_eq : st.i = st'.i
  outPos_eq : st.outPos = st'.out.length
  currentListNo_eq : st.currentListNo = st'.currentListNo
  inOrderedBlock_eq : st.inOrderedBlock = st'.inOrderedBlock
  written : st'.out <+: st.out.bytes

namespace RenumberMemory.Follows

variable {size : Nat} {st : RenumberMemory size} {st' : RenumberState}

theorem put (follows : st.Follows st') (room : st'.out.length < size) (c : Byte) :
    ∃ next, st.put c = some next ∧ next.Follows { st' with out := st'.out ++ [c] } := by
  obtain ⟨out, stored, written⟩ := Block.store_next follows.written room c
  refine ⟨{ st with out, outPos := st.outPos + 1 }, ?_, ?_⟩
  · simp [RenumberMemory.put, follows.outPos_eq, stored]
  · exact { follows with
      outPos_eq := by simp [follows.outPos_eq]
      written }

theorem copy (follows : st.Follows st') (text : Block size) {offset count : Nat}
    (inside : offset + count ≤ size) (room : st'.out.length + count ≤ size) :
    ∃ next, st.copy text offset count = some next ∧
      next.Follows { st' with out := st'.out ++ (text.bytes.drop offset).take count } := by
  obtain ⟨out, copied, written⟩ := Block.memcpy_next follows.written text inside room
  refine ⟨{ st with out, outPos := st.outPos + count }, ?_, ?_⟩
  · simp [RenumberMemory.copy, follows.outPos_eq, copied]
  · have taken : ((text.bytes.drop offset).take count).length = count := by
      rw [List.length_take, List.length_drop, text.length_eq]
      omega
    exact { follows with
      outPos_eq := by rw [List.length_append, taken, follows.outPos_eq]
      written }

end RenumberMemory.Follows

section

variable {text : Text} {st : RenumberMemory (text.length + 1)} {st' : RenumberState}
  {lineLen : Nat}

/-- A line that is no list line is copied as it is. -/
theorem renumberLineIn_plain (follows : st.Follows st') (inside : st'.i + lineLen ≤ text.length)
    (room : st'.out.length = st'.i) (plain : isOrderedListLine (text.drop st'.i) = none) :
    ∃ next, renumberLineIn (.ofText text) st lineLen = some next ∧
      next.Follows (renumberLine st' (text.drop st'.i) lineLen) := by
  have tested := isOrderedListLineAt_eq (Nat.le_of_add_right_le inside)
  simp only [renumberLineIn, renumberLine, follows.i_eq, tested, plain, Option.bind_eq_bind,
    Option.bind_some]
  by_cases some_bytes : 0 < lineLen
  · have room : st'.out.length + lineLen ≤ text.length + 1 := by omega
    obtain ⟨next, ran, holds⟩ := follows.copy (.ofText text) (Nat.le_succ_of_le inside) room
    rw [Block.take_drop_ofText inside] at holds
    simp only [if_pos some_bytes, ran, Option.bind_some]
    exact ⟨_, rfl, { holds with inOrderedBlock_eq := rfl }⟩
  · simp only [if_neg some_bytes]
    exact ⟨_, rfl, { follows with inOrderedBlock_eq := rfl }⟩

/-- Of a list line the marker is written before the length is looked at; the three bytes
are bytes of the line. -/
theorem renumberLineIn_marked {n : Nat} (follows : st.Follows st')
    (inside : st'.i + lineLen ≤ text.length) (room : st'.out.length = st'.i)
    (marked : isOrderedListLine (text.drop st'.i) = some n) (three : 3 ≤ lineLen) :
    ∃ next, renumberLineIn (.ofText text) st lineLen = some next ∧
      next.Follows (renumberLine st' (text.drop st'.i) lineLen) := by
  have tested := isOrderedListLineAt_eq (Nat.le_of_add_right_le inside)
  have number : (if st.inOrderedBlock then st.currentListNo else 1) =
      if st'.inOrderedBlock then st'.currentListNo else 1 := by
    rw [follows.inOrderedBlock_eq, follows.currentListNo_eq]
  obtain ⟨first, ran, holds⟩ := follows.put (by omega)
    (UInt8.ofNat (48 + if st'.inOrderedBlock then st'.currentListNo else 1))
  obtain ⟨second, ran', holds⟩ := holds.put (by simp; omega) 46
  obtain ⟨third, ran'', holds⟩ := holds.put (by simp; omega) space
  simp only [renumberLineIn, renumberLine, follows.i_eq, tested, marked, number, ran, ran', ran'',
    Option.bind_eq_bind, Option.bind_some]
  by_cases more : 3 < lineLen
  · have within : st'.i + 3 + (lineLen - 3) ≤ text.length := by omega
    obtain ⟨last, ran, holds⟩ :=
      holds.copy (.ofText text) (Nat.le_succ_of_le within) (by simp; omega)
    rw [Block.take_drop_ofText within] at holds
    simp only [if_pos more, sizeSub_of_le three, ran, Option.bind_some]
    exact ⟨_, rfl, { holds with
      currentListNo_eq := rfl
      inOrderedBlock_eq := rfl
      outPos_eq := by simpa [List.drop_drop] using holds.outPos_eq
      written := by simpa [List.drop_drop] using holds.written }⟩
  · simp only [if_neg more]
    exact ⟨_, rfl, { holds with
      currentListNo_eq := rfl
      inOrderedBlock_eq := rfl
      outPos_eq := by simpa using holds.outPos_eq
      written := by simpa using holds.written }⟩

end

/-- An iteration moves on inside the text, and its output keeps step. -/
theorem renumberStep_advances {text : Text} {st : RenumberState} (inside : st.i < text.length)
    (even : st.out.length = st.i) :
    (renumberStep text st).out.length = (renumberStep text st).i ∧
      st.i < (renumberStep text st).i ∧ (renumberStep text st).i ≤ text.length := by
  obtain ⟨line, fresh, ⟨rest_eq, -⟩ | ⟨tail, rest_eq, -⟩⟩ := lines_cases (text.drop st.i)
  · rw [← List.append_nil line] at rest_eq
    have length_eq := congrArg List.length rest_eq
    simp only [List.length_drop, List.append_nil] at length_eq
    rw [renumberStep_eq rest_eq fresh (.inl rfl)]
    simp [length_rewriteLine, even]
    omega
  · have length_eq := congrArg List.length rest_eq
    simp only [List.length_drop, List.length_append, List.length_cons] at length_eq
    rw [renumberStep_eq rest_eq fresh (.inr ⟨tail, rfl⟩)]
    simp [length_rewriteLine, even]
    omega

/-- One iteration on memory is one on texts. -/
theorem renumberIteration_follows {text : Text} {st : RenumberMemory (text.length + 1)}
    {st' : RenumberState} (follows : st.Follows st') (inside : st'.i < text.length)
    (even : st'.out.length = st'.i) :
    ∃ next, renumberIteration (.ofText text) text.length st = some next ∧
      next.Follows (renumberStep text st') := by
  obtain ⟨before, within⟩ := lineEnd_le (Nat.le_of_lt inside)
  have advanced := (renumberStep_advances inside even).1
  obtain ⟨middle, ran, holds⟩ : ∃ next,
      renumberLineIn (.ofText text) st (lineEnd text st'.i - st'.i) = some next ∧
        next.Follows (renumberLine st' (text.drop st'.i) (lineEnd text st'.i - st'.i)) := by
    have whole : st'.i + (lineEnd text st'.i - st'.i) ≤ text.length := by omega
    cases listLine : isOrderedListLine (text.drop st'.i) with
    | none => exact renumberLineIn_plain follows whole even listLine
    | some n =>
        have three := Nat.le_sub_of_add_le' (three_le_of_isOrderedListLine listLine)
        exact renumberLineIn_marked follows whole even listLine three
  have scanned : scanLine (.ofText text) text.length (text.length - st'.i) st'.i =
      some (lineEnd text st'.i) := scanLine_eq (Nat.le_of_lt inside) le_rfl
  simp only [renumberIteration, follows.i_eq, Option.bind_eq_bind, scanned, Option.bind_some,
    sizeSub_of_le before, ran]
  by_cases ends : lineEnd text st'.i < text.length
  · simp only [if_pos ends, Block.load_ofText within, Option.bind_some]
    by_cases stop : byteAt text (lineEnd text st'.i) = newline
    · simp only [renumberStep, ends, stop, and_self, if_true] at advanced ⊢
      rw [List.length_append, List.length_singleton] at advanced
      obtain ⟨next, stored, holds⟩ := holds.put (by omega) newline
      simp only [stored, Option.bind_some]
      exact ⟨_, rfl, { holds with i_eq := rfl }⟩
    · simp only [renumberStep, ends, stop, and_false, if_false]
      exact ⟨_, rfl, { holds with i_eq := rfl }⟩
  · simp only [renumberStep, ends, false_and, if_false]
    exact ⟨_, rfl, { holds with i_eq := rfl }⟩

/-! ## The loop -/

theorem renumberEntry_follows {size : Nat} (out : Block size) :
    (renumberEntry out).Follows renumberStart where
  i_eq := rfl
  outPos_eq := rfl
  currentListNo_eq := rfl
  inOrderedBlock_eq := rfl
  written := List.nil_prefix

/-- At the head of every iteration the two offsets agree. -/
theorem AtHead.mirrors {text : Text} {st : RenumberMemory (text.length + 1)}
    (head : AtHead text st) :
    ∃ st' : RenumberState, st.Follows st' ∧ st'.out.length = st'.i ∧ st'.i ≤ text.length := by
  induction head with
  | entry fresh => exact ⟨renumberStart, renumberEntry_follows fresh, rfl, Nat.zero_le _⟩
  | @next st next _ inside iteration ih =>
      obtain ⟨st', follows, even, -⟩ := ih
      rw [follows.i_eq] at inside
      obtain ⟨next', ran, holds⟩ := renumberIteration_follows follows inside even
      obtain rfl : next' = next := Option.some.inj (ran.symm.trans iteration)
      obtain ⟨stays, -, bound⟩ := renumberStep_advances inside even
      exact ⟨renumberStep text st', holds, stays, bound⟩

theorem renumberIterations_follows {text : Text} {fuel : Nat}
    {st : RenumberMemory (text.length + 1)} {st' : RenumberState} (follows : st.Follows st')
    (even : st'.out.length = st'.i) (inside : st'.i ≤ text.length) :
    ∃ last, renumberIterations (.ofText text) text.length fuel st = some last ∧
      last.Follows (renumberLoop text fuel st') := by
  induction fuel generalizing st st' with
  | zero => exact ⟨st, rfl, follows⟩
  | succ fuel ih =>
      unfold renumberIterations renumberLoop
      rw [follows.i_eq]
      by_cases more : st'.i < text.length
      · obtain ⟨next, ran, holds⟩ := renumberIteration_follows follows more even
        obtain ⟨stays, -, bound⟩ := renumberStep_advances more even
        simp only [if_pos more, ran, Option.bind_eq_bind, Option.bind_some]
        exact ih holds stays bound
      · simp only [if_neg more]
        exact ⟨st, rfl, follows⟩

/-- Renumbering stays in bounds.  At the head of every iteration the output offset is
the input offset and lies inside the text, and the iteration, all of whose accesses
are checked, has a result further on.  A list line is three characters long at least.
The call as a whole leaves the renumbered text and its terminator in the buffer,
whatever that held. -/
theorem renumberOrderedLists_inBounds (text : Text) :
    (∀ st : RenumberMemory (text.length + 1), AtHead text st →
      st.outPos = st.i ∧ st.i ≤ text.length ∧
        (st.i < text.length → ∃ next,
          renumberIteration (.ofText text) text.length st = some next ∧ st.i < next.i)) ∧
      (∀ i n, isOrderedListLineAt (.ofText text) i = some (some n) → i + 3 ≤ lineEnd text i) ∧
      ∀ fresh : Block (text.length + 1), ∃ out, renumberInMemory text fresh = some out ∧
        out.bytes = terminated (renumbered text) := by
  refine ⟨?_, ?_, ?_⟩
  · intro st head
    obtain ⟨st', follows, even, bound⟩ := head.mirrors
    refine ⟨by rw [follows.outPos_eq, even, follows.i_eq], by rwa [follows.i_eq], ?_⟩
    intro inside
    rw [follows.i_eq] at inside ⊢
    obtain ⟨next, ran, holds⟩ := renumberIteration_follows follows inside even
    exact ⟨next, ran, by rw [holds.i_eq]; exact (renumberStep_advances inside even).2.1⟩
  · intro i n accepted
    have inside : i ≤ text.length := by
      by_contra outside
      have unread : (Block.ofText text).load i = none :=
        List.getElem?_eq_none (by rw [(Block.ofText text).length_eq]; omega)
      simp [isOrderedListLineAt, unread] at accepted
    rw [isOrderedListLineAt_eq inside] at accepted
    exact three_le_of_isOrderedListLine (Option.some.inj accepted)
  · intro fresh
    obtain ⟨last, ran, holds⟩ := renumberIterations_follows (renumberEntry_follows fresh) rfl
      (Nat.zero_le text.length)
    have size : (renumbered text).length = text.length := length_renumbered text
    obtain ⟨out, stored, written⟩ := Block.store_next holds.written (by
      rw [← renumbered, size]
      exact Nat.lt_succ_self _) 0
    refine ⟨out, ?_, ?_⟩
    · rw [renumberInMemory, ran, Option.bind_eq_bind, Option.bind_some, holds.outPos_eq]
      exact stored
    · refine (written.eq_of_length ?_).symm
      rw [← renumbered, List.length_append, size, out.length_eq, List.length_singleton]

end CollabMarkdown.Markdown
