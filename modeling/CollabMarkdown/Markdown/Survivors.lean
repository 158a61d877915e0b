import CollabMarkdown.Markdown.Nesting
import CollabMarkdown.Sequence.Separation

/-!
# Surviving characters

Which characters of the committed text a list of pending operations leaves, and
where they stand in the working text.  The transformed position of a committed
one separates the survivors in front of it from those behind it, for as long as
every operation stays in the text it applies to.  A range command therefore
encloses exactly the survivors of its range.
-/

namespace CollabMarkdown.Markdown

open CollabMarkdown.CString
open CollabMarkdown.Sequence
open CollabMarkdown.Transition

/-! ## Tracing the committed text -/

/-- `Op.splice` on items of any kind, with the bytes of an insertion entered as
items. -/
def Op.spliceItems {α : Type} (enter : Byte → α) (items : List α) : Op → List α
  | .insert pos data =>
      let pos := clampPos items.length pos
      items.take pos ++ data.map enter ++ items.drop pos
  | .delete pos len =>
      let pos := clampPos items.length pos
      let len := clampLen items.length pos len
      items.take pos ++ items.drop (sizeAdd pos len)

theorem Op.spliceItems_id (text : Text) (op : Op) : op.spliceItems id text = op.splice text := by
  cases op <;> simp [Op.spliceItems, Op.splice]

theorem Op.map_spliceItems {α β : Type} (f : α → β) (enter : Byte → α) (items : List α) (op : Op) :
    (op.spliceItems enter items).map f = op.spliceItems (f ∘ enter) (items.map f) := by
  cases op <;> simp [Op.spliceItems, List.map_take, List.map_drop]

/-- The working text over `n` committed bytes, each byte replaced by its committed
index, or by nothing if it was inserted. -/
def survivors (n : Nat) (ops : List Op) : List (Option Nat) :=
  ops.foldl (Op.spliceItems fun _ => none) ((List.range n).map some)

theorem survivors_concat (n : Nat) (ops : List Op) (op : Op) :
    survivors n (ops ++ [op]) = op.spliceItems (fun _ => none) (survivors n ops) := by
  simp [survivors]

theorem survivor_lt {n : Nat} {ops : List Op} {k : Nat} (member : some k ∈ survivors n ops) :
    k < n := by
  induction ops using List.reverseRecOn with
  | nil => simpa [survivors] using member
  | append_singleton ops op ih =>
      rw [survivors_concat] at member
      cases op with
      | insert pos data =>
          simp only [Op.spliceItems, List.mem_append, List.mem_map, reduceCtorEq, and_false,
            exists_false, or_false] at member
          rcases member with front | back
          · exact ih (List.mem_of_mem_take front)
          · exact ih (List.mem_of_mem_drop back)
      | delete pos len =>
          simp only [Op.spliceItems, List.mem_append] at member
          rcases member with front | back
          · exact ih (List.mem_of_mem_take front)
          · exact ih (List.mem_of_mem_drop back)

/-- The bytes of the working text with their committed indices. -/
def traced (committed : Text) (ops : List Op) : List (Byte × Option Nat) :=
  ops.foldl (Op.spliceItems (·, none)) (committed.zipIdx.map fun c => (c.1, some c.2))

theorem traced_concat (committed : Text) (ops : List Op) (op : Op) :
    traced committed (ops ++ [op]) = op.spliceItems (·, none) (traced committed ops) := by
  simp [traced]

theorem map_fst_traced (committed : Text) (ops : List Op) :
    (traced committed ops).map Prod.fst = spliceAll committed ops := by
  induction ops using List.reverseRecOn with
  | nil => simp [traced, Function.comp_def, List.zipIdx_map_fst]
  | append_singleton ops op ih =>
      rw [traced_concat, Op.map_spliceItems, ih, spliceAll_append]
      exact Op.spliceItems_id _ _

theorem map_snd_traced (committed : Text) (ops : List Op) :
    (traced committed ops).map Prod.snd = survivors committed.length ops := by
  induction ops using List.reverseRecOn with
  | nil =>
      rw [survivors, List.range_eq_range', ← List.zipIdx_map_snd 0 committed]
      simp only [traced, List.foldl_nil, List.map_map]
      rfl
  | append_singleton ops op ih =>
      rw [traced_concat, Op.map_spliceItems, ih, survivors_concat]
      rfl

@[simp]
theorem length_survivors (committed : Text) (ops : List Op) :
    (survivors committed.length ops).length = (spliceAll committed ops).length := by
  rw [← map_snd_traced, ← map_fst_traced, List.length_map, List.length_map]

/-- Every traced byte is the committed byte of its index. -/
theorem traced_faithful (committed : Text) (ops : List Op) :
    ∀ c ∈ traced committed ops, ∀ k, c.2 = some k → committed[k]? = some c.1 := by
  induction ops using List.reverseRecOn with
  | nil =>
      intro c member k index
      obtain ⟨⟨b, j⟩, found, rfl⟩ := List.mem_map.mp member
      obtain rfl := Option.some.inj index
      exact List.mem_zipIdx_iff_getElem?.mp found
  | append_singleton ops op ih =>
      intro c member k index
      rw [traced_concat] at member
      cases op with
      | insert pos data =>
          simp only [Op.spliceItems, List.mem_append] at member
          rcases member with (front | new) | back
          · exact ih c (List.mem_of_mem_take front) k index
          · obtain ⟨b, -, rfl⟩ := List.mem_map.mp new
            contradiction
          · exact ih c (List.mem_of_mem_drop back) k index
      | delete pos len =>
          simp only [Op.spliceItems, List.mem_append] at member
          rcases member with front | back
          · exact ih c (List.mem_of_mem_take front) k index
          · exact ih c (List.mem_of_mem_drop back) k index

/-- A survivor is the byte of the committed text it is the index of. -/
theorem getElem?_of_survivor {committed : Text} {ops : List Op} {i k : Nat}
    (found : (survivors committed.length ops)[i]? = some (some k)) :
    (spliceAll committed ops)[i]? = committed[k]? := by
  rw [← map_snd_traced, List.getElem?_map] at found
  obtain ⟨c, here, index⟩ := Option.map_eq_some_iff.mp found
  rw [← map_fst_traced, List.getElem?_map, here, Option.map_some]
  exact (traced_faithful committed ops c (List.mem_of_getElem? here) k index).symm

/-! ## Operations within the text -/

/-- The operation stays inside a text of length `n`, the end of a deletion being
the exact sum of its position and length. -/
def Op.Within (n : Nat) : Op → Prop
  | .insert pos _ => pos ≤ n
  | .delete pos len => pos + len ≤ n ∧ pos + len < sizeModulus

/-- Every operation of a list is within the text that those before it leave. -/
def AllWithin : Text → List Op → Prop
  | _, [] => True
  | text, op :: rest => op.Within text.length ∧ AllWithin (op.splice text) rest

instance Op.Within.decidable (n : Nat) : (op : Op) → Decidable (op.Within n)
  | .insert _ _ => inferInstanceAs (Decidable (_ ≤ _))
  | .delete _ _ => inferInstanceAs (Decidable (_ ∧ _))

instance AllWithin.decidable : (text : Text) → (ops : List Op) → Decidable (AllWithin text ops)
  | _, [] => isTrue trivial
  | text, op :: rest =>
      have := AllWithin.decidable (op.splice text) rest
      inferInstanceAs (Decidable (op.Within text.length ∧ _))

theorem Op.Within.inRange {n : Nat} {op : Op} (within : op.Within n) : op.InRange n := by
  cases op with
  | insert pos data => exact within
  | delete pos len =>
      obtain ⟨inside, fits⟩ := within
      rw [Op.InRange, sizeAdd_of_lt fits]
      omega

theorem AllWithin.inRange {text : Text} {ops : List Op} (within : AllWithin text ops) :
    AllInRange text ops := by
  induction ops generalizing text with
  | nil => exact trivial
  | cons op rest ih => exact ⟨within.1.inRange, ih within.2⟩

theorem allWithin_concat {text : Text} {ops : List Op} {op : Op} :
    AllWithin text (ops ++ [op]) ↔
      AllWithin text ops ∧ op.Within (spliceAll text ops).length := by
  induction ops generalizing text with
  | nil => simp [AllWithin]
  | cons first rest ih => simp [AllWithin, ih, and_assoc]

theorem Op.spliceItems_insert {α : Type} (enter : Byte → α) {items : List α} {pos : Nat}
    (inside : pos ≤ items.length) (data : Text) :
    (Op.insert pos data).spliceItems enter items =
      replaceRange items pos pos (data.map enter) := by
  simp only [Op.spliceItems, clampPos_of_le inside, replaceRange]

theorem Op.spliceItems_delete {α : Type} (enter : Byte → α) {items : List α} {pos len : Nat}
    (within : (Op.delete pos len).Within items.length) :
    (Op.delete pos len).spliceItems enter items = replaceRange items pos (pos + len) [] := by
  obtain ⟨inside, fits⟩ := within
  simp only [Op.spliceItems, clampPos_of_le (by omega : pos ≤ items.length), clampLen,
    sizeAdd_of_lt fits, if_neg (Nat.not_lt.mpr inside), replaceRange, List.append_nil]

/-! ## Transformed positions -/

/-- What a deletion within the text does to a position: refuse it strictly inside,
move it back behind, leave it in front. -/
theorem transformOp_delete {pos len adjusted next : Nat} (fits : pos + len < sizeModulus)
    (moved : transformOp adjusted (.delete pos len) = .ok next) :
    (pos + len ≤ adjusted ∧ next = adjusted - len) ∨ (adjusted ≤ pos ∧ next = adjusted) := by
  simp only [transformOp, sizeAdd_of_lt fits] at moved
  split at moved
  · contradiction
  · split at moved
    · have endBefore : pos + len ≤ adjusted := by omega
      left
      rw [if_pos endBefore, sizeSub_of_le (by omega)] at moved
      exact ⟨endBefore, (Except.ok.inj moved).symm⟩
    · right
      exact ⟨by omega, (Except.ok.inj moved).symm⟩

/-- The one error of a position: it lies strictly inside a deletion. -/
theorem transformOp_error_iff {adjusted : Nat} {op : Op} {n : Nat} (within : op.Within n)
    (r : MarkdownResult) :
    transformOp adjusted op = .error r ↔
      r = .deletedPosition ∧
        ∃ pos len, op = .delete pos len ∧ pos < adjusted ∧ adjusted < pos + len := by
  cases op with
  | insert pos data => simp [transformOp]
  | delete pos len =>
      simp only [transformOp, sizeAdd_of_lt within.2]
      constructor
      · intro refused
        split at refused
        · exact ⟨(Except.error.inj refused).symm, pos, len, rfl, by omega, by omega⟩
        · split at refused <;> contradiction
      · rintro ⟨rfl, _, _, same, after, before⟩
        obtain ⟨rfl, rfl⟩ := Op.delete.inj same
        rw [if_pos ⟨after, before⟩]

theorem transformOp_mono {n a b a' b' : Nat} {op : Op} (within : op.Within n) (le : a ≤ b)
    (movedA : transformOp a op = .ok a') (movedB : transformOp b op = .ok b') : a' ≤ b' := by
  cases op with
  | insert pos data =>
      simp only [transformOp, Except.ok.injEq] at movedA movedB
      subst movedA movedB
      split <;> split <;> omega
  | delete pos len =>
      rcases transformOp_delete within.2 movedA with ⟨_, rfl⟩ | ⟨_, rfl⟩ <;>
        rcases transformOp_delete within.2 movedB with ⟨_, rfl⟩ | ⟨_, rfl⟩ <;> omega

theorem transformOps_concat_eq_ok {ops : List Op} {op : Op} {x q : Nat} :
    transformOps (ops ++ [op]) x = .ok q ↔
      ∃ middle, transformOps ops x = .ok middle ∧ transformOp middle op = .ok q := by
  rw [transformOps_concat]
  cases transformOps ops x <;> simp [Except.bind]

/-- Positions are carried over in order. -/
theorem transformOps_mono {text : Text} {ops : List Op} {a b a' b' : Nat}
    (within : AllWithin text ops) (le : a ≤ b) (movedA : transformOps ops a = .ok a')
    (movedB : transformOps ops b = .ok b') : a' ≤ b' := by
  induction ops using List.reverseRecOn generalizing a' b' with
  | nil =>
      obtain rfl := Except.ok.inj movedA
      obtain rfl := Except.ok.inj movedB
      exact le
  | append_singleton ops op ih =>
      obtain ⟨earlier, last⟩ := allWithin_concat.mp within
      obtain ⟨middleA, firstA, lastA⟩ := transformOps_concat_eq_ok.mp movedA
      obtain ⟨middleB, firstB, lastB⟩ := transformOps_concat_eq_ok.mp movedB
      exact transformOp_mono last (ih earlier firstA firstB) lastA lastB

/-- The cut separates the survivors in front of the committed position `x` from
those behind it. -/
abbrev SeparatesAt (x : Nat) : List (Option Nat) → Nat → Prop :=
  Separates (fun source => ∃ k, source = some k ∧ k < x)
    (fun source => ∃ k, source = some k ∧ x ≤ k)

theorem SeparatesAt.index_lt_iff {x cut i k : Nat} {items : List (Option Nat)}
    (separates : SeparatesAt x items cut) (found : items[i]? = some (some k)) :
    i < cut ↔ k < x := by
  constructor
  · intro front
    by_contra behind
    have := separates.behind i _ found ⟨k, rfl, Nat.le_of_not_lt behind⟩
    omega
  · intro before
    exact separates.before i _ found ⟨k, rfl, before⟩

/-- One operation within the text keeps a transformed position separating. -/
theorem SeparatesAt.step {x cut next : Nat} {items : List (Option Nat)} {op : Op}
    (separates : SeparatesAt x items cut) (within : op.Within items.length)
    (moved : transformOp cut op = .ok next) :
    SeparatesAt x (op.spliceItems (fun _ => none) items) next := by
  cases op with
  | insert pos data =>
      rw [Op.spliceItems_insert _ within]
      simp only [transformOp, Except.ok.injEq] at moved
      subst moved
      by_cases before : pos < cut
      · have shifted := separates.replace_before (Nat.le_refl pos) (Nat.le_of_lt before)
          (data.map fun _ => none) (by simp)
        simpa [before] using shifted
      · have kept := separates.replace_behind (Nat.le_refl pos) within (Nat.le_of_not_lt before)
          (data.map fun _ => none) (by simp)
        simpa [before] using kept
  | delete pos len =>
      rw [Op.spliceItems_delete _ within]
      rcases transformOp_delete within.2 moved with ⟨behind, rfl⟩ | ⟨before, rfl⟩
      · have shifted := separates.replace_before (Nat.le_add_right pos len) behind [] (by simp)
        simpa using shifted
      · exact separates.replace_behind (Nat.le_add_right pos len) within.1 before [] (by simp)

/-- A transformed position separates the survivors. -/
theorem transformOps_separatesAt {committed : Text} {ops : List Op} {x cut : Nat}
    (within : AllWithin committed ops) (inText : x ≤ committed.length)
    (moved : transformOps ops x = .ok cut) :
    SeparatesAt x (survivors committed.length ops) cut := by
  induction ops using List.reverseRecOn generalizing cut with
  | nil =>
      obtain rfl := Except.ok.inj moved
      have index {i : Nat} {source : Option Nat}
          (found : (survivors committed.length [])[i]? = some source) : source = some i := by
        simp only [survivors, List.foldl_nil, List.getElem?_map, Option.map_eq_some_iff] at found
        obtain ⟨k, place, rfl⟩ := found
        obtain ⟨_, rfl⟩ := List.getElem?_eq_some_iff.mp place
        simp
      refine ⟨by simpa [survivors] using inText, ?_, ?_⟩
      · rintro i source found ⟨k, rfl, before⟩
        obtain rfl := Option.some.inj (index found)
        exact before
      · rintro i source found ⟨k, rfl, behind⟩
        obtain rfl := Option.some.inj (index found)
        exact behind
  | append_singleton ops op ih =>
      obtain ⟨earlier, last⟩ := allWithin_concat.mp within
      obtain ⟨middle, first, rest⟩ := transformOps_concat_eq_ok.mp moved
      rw [survivors_concat]
      exact (ih earlier first).step (by simpa using last) rest

/-! ## Range commands -/

/-- Both delimiters of a range, the closing one inserted first. -/
theorem spliceAll_delimiters {text : Text} {start stop : Nat} (ordered : start ≤ stop)
    (inside : stop ≤ text.length) (opening closing : Text) :
    spliceAll text [.insert stop closing, .insert start opening] =
      text.take start ++ opening ++ (text.drop start).take (stop - start) ++ closing ++
        text.drop stop := by
  have two := replaceRange_right_first (Nat.le_refl start) ordered (Nat.le_refl stop) inside
    opening closing
  rw [spliceAll_cons, spliceAll_cons, spliceAll_nil, splice_insert, splice_insert]
  exact two

/-- The text a range command leaves: its delimiters around a part of the working text
that contains the survivors of its range and no other ones. -/
structure Enclosed (s : Store) (c : RangeCommand) (start stop : Nat) (text : Text) : Prop where
  ordered : start ≤ stop
  inside : stop ≤ s.workingText.length
  text_eq : text =
    s.workingText.take start ++ c.opening ++ (s.workingText.drop start).take (stop - start) ++
      c.closing ++ s.workingText.drop stop
  encloses : ∀ i k, (survivors s.committedText.length s.pending)[i]? = some (some k) →
    (start ≤ i ∧ i < stop ↔ c.start ≤ k ∧ k < c.stop)

/-- Delimiters inserted at the transformed ends enclose the survivors. -/
theorem enclosed_of_moved {s : Store} (within : AllWithin s.committedText s.pending)
    {c : RangeCommand} (ordered : c.start < c.stop) (inText : c.stop ≤ s.committedText.length)
    {start stop : Nat} (startMoved : transformOps s.pending c.start = .ok start)
    (stopMoved : transformOps s.pending c.stop = .ok stop) :
    Enclosed s c start stop
      (s.enqueueAll [.insert stop c.closing, .insert start c.opening]).workingText := by
  have startCut := transformOps_separatesAt within (by omega) startMoved
  have stopCut := transformOps_separatesAt within inText stopMoved
  have arranged := transformOps_mono within (Nat.le_of_lt ordered) startMoved stopMoved
  have inside : stop ≤ s.workingText.length :=
    Nat.le_trans stopCut.inside (Nat.le_of_eq (length_survivors _ _))
  refine ⟨arranged, inside, ?_, ?_⟩
  · rw [Store.workingText_enqueueAll, spliceAll_delimiters arranged inside]
  · intro i k found
    have startSide := startCut.index_lt_iff found
    have stopSide := stopCut.index_lt_iff found
    omega

/-- A range command on a nonempty range of the committed text either finds an end
deleted and changes nothing, or encloses the survivors of its range. -/
theorem formatStep_encloses (s : Store) (within : AllWithin s.committedText s.pending)
    (c : RangeCommand) (ordered : c.start < c.stop) (inText : c.stop ≤ s.committedText.length) :
    formatStep s c = (s, .deletedPosition) ∨
      (formatStep s c).2 = .success ∧
        ∃ start stop, Enclosed s c start stop (formatStep s c).1.workingText := by
  rcases formatStep_cases within.inRange ordered inText with
    ⟨_, rejected⟩ | ⟨start, stop, startMoved, stopMoved, step⟩
  · exact .inl rejected
  · right
    rw [step]
    exact ⟨rfl, start, stop, enclosed_of_moved within ordered inText startMoved stopMoved⟩

/-- With a deletion in front of the range and an insertion inside. -/
theorem formatStep_encloses_bold :
    let s := (run editStep (Store.fresh 1 ⟨[], rfl⟩)
      [.edit 0 (.insert 0 (some (ascii "ab cd ef"))), .increment, .edit 1 (.delete 1 2),
        .edit 1 (.insert 2 (some (ascii "xy")))]).1
    (formatStep s (.bold 3 7)).2 = .success ∧
      ∃ start stop, Enclosed s (.bold 3 7) start stop (formatStep s (.bold 3 7)).1.workingText :=
  (formatStep_encloses
    (run editStep (Store.fresh 1 ⟨[], rfl⟩)
      [.edit 0 (.insert 0 (some (ascii "ab cd ef"))), .increment, .edit 1 (.delete 1 2),
        .edit 1 (.insert 2 (some (ascii "xy")))]).1
    (by decide) (.bold 3 7) (by decide) (by decide)).resolve_left
    fun rejected => absurd (congrArg Prod.snd rejected) (by decide)

end CollabMarkdown.Markdown
