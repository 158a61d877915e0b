import CollabMarkdown.Markdown.Survivors

/-!
# Deletions in several pieces

The transform looks at one pending deletion at a time, and refuses a position only
if one of them has characters on both sides of it.  So whether a committed position
counts as deleted depends on how the characters around it were deleted, and a range
command can be accepted on a range of which nothing is left.
-/

namespace CollabMarkdown.Markdown

open CollabMarkdown.CString
open CollabMarkdown.Sequence
open CollabMarkdown.Transition

/-! ## Lists of deletions -/

/-- Whether an operation is a deletion. -/
def Op.IsDeletion : Op → Prop
  | .insert _ _ => False
  | .delete _ _ => True

/-- Deletions, each within the text that those before it leave. -/
structure Deletions (text : Text) (ops : List Op) : Prop where
  all : ∀ op ∈ ops, op.IsDeletion
  within : AllWithin text ops

/-- The operation behind `earlier` deletes the committed character `k`. -/
def Removes (n : Nat) (earlier : List Op) (op : Op) (k : Nat) : Prop :=
  some k ∈ survivors n earlier ∧ some k ∉ survivors n (earlier ++ [op])

/-- One operation of the list deletes committed characters on both sides of `x`. -/
def Straddled (n : Nat) (ops : List Op) (x : Nat) : Prop :=
  ∃ earlier op, earlier ++ [op] <+: ops ∧
    (∃ k, k < x ∧ Removes n earlier op k) ∧ ∃ k, x ≤ k ∧ Removes n earlier op k

theorem straddled_concat {n : Nat} {ops : List Op} {op : Op} {x : Nat} :
    Straddled n (ops ++ [op]) x ↔
      Straddled n ops x ∨
        (∃ k, k < x ∧ Removes n ops op k) ∧ ∃ k, x ≤ k ∧ Removes n ops op k := by
  constructor
  · rintro ⟨earlier, last, initial, sides⟩
    rcases List.prefix_concat_iff.mp initial with whole | initial
    · obtain ⟨rfl, rfl⟩ := List.append_singleton_inj.mp whole
      exact .inr sides
    · exact .inl ⟨earlier, last, initial, sides⟩
  · rintro (⟨earlier, last, initial, sides⟩ | sides)
    · exact ⟨earlier, last, List.prefix_concat_iff.mpr (.inr initial), sides⟩
    · exact ⟨ops, op, List.prefix_rfl, sides⟩

theorem deletions_concat {text : Text} {ops : List Op} {op : Op} :
    Deletions text (ops ++ [op]) ↔
      Deletions text ops ∧ op.IsDeletion ∧ op.Within (spliceAll text ops).length := by
  constructor
  · rintro ⟨all, within⟩
    obtain ⟨earlier, last⟩ := allWithin_concat.mp within
    exact ⟨⟨fun op member => all op (List.mem_append_left _ member), earlier⟩,
      all op (by simp), last⟩
  · rintro ⟨⟨all, within⟩, isDeletion, last⟩
    refine ⟨?_, allWithin_concat.mpr ⟨within, last⟩⟩
    intro op' member
    rcases List.mem_append.mp member with earlier | new
    · exact all op' earlier
    · rwa [List.mem_singleton.mp new]

/-- A deletion within the text leaves the rest of what there was. -/
theorem survivors_delete {text : Text} {ops : List Op} {pos len : Nat}
    (within : (Op.delete pos len).Within (spliceAll text ops).length) :
    pos + len ≤ (survivors text.length ops).length ∧
      survivors text.length (ops ++ [.delete pos len]) =
        replaceRange (survivors text.length ops) pos (pos + len) [] := by
  have inItems : (Op.delete pos len).Within (survivors text.length ops).length := by
    simpa using within
  exact ⟨inItems.1, by rw [survivors_concat, Op.spliceItems_delete _ inItems]⟩

theorem survivors_delete_sublist {text : Text} {ops : List Op} {op : Op}
    (isDeletion : op.IsDeletion) (within : op.Within (spliceAll text ops).length) :
    (survivors text.length (ops ++ [op])).Sublist (survivors text.length ops) := by
  cases op with
  | insert pos data => exact False.elim isDeletion
  | delete pos len =>
      rw [(survivors_delete within).2, replaceRange, List.append_nil]
      conv_rhs => rw [← List.take_append_drop pos (survivors text.length ops)]
      exact (List.drop_sublist_drop_left _ (Nat.le_add_right pos len)).append_left _

namespace Deletions

variable {text : Text} {ops : List Op} {op : Op} {x : Nat}

/-- What deletions leave is a subsequence of the committed text. -/
theorem sublist (deletions : Deletions text ops) :
    (survivors text.length ops).Sublist ((List.range text.length).map some) := by
  induction ops using List.reverseRecOn with
  | nil => exact List.Sublist.refl _
  | append_singleton ops op ih =>
      obtain ⟨earlier, isDeletion, last⟩ := deletions_concat.mp deletions
      exact (survivors_delete_sublist isDeletion last).trans (ih earlier)

theorem nodup (deletions : Deletions text ops) : (survivors text.length ops).Nodup :=
  (List.nodup_range.map fun _ _ => Option.some.inj).sublist deletions.sublist

theorem sorted (deletions : Deletions text ops) {i j a b : Nat}
    (atI : (survivors text.length ops)[i]? = some (some a))
    (atJ : (survivors text.length ops)[j]? = some (some b)) (before : i < j) : a < b := by
  have sorted : ((List.range text.length).map some).Pairwise
      fun first second => ∀ a b, first = some a → second = some b → a < b := by
    rw [List.pairwise_map]
    apply List.pairwise_lt_range.imp
    rintro first second ordered a b ⟨⟩ ⟨⟩
    exact ordered
  obtain ⟨iInside, i_eq⟩ := List.getElem?_eq_some_iff.mp atI
  obtain ⟨jInside, j_eq⟩ := List.getElem?_eq_some_iff.mp atJ
  exact List.pairwise_iff_getElem.mp (sorted.sublist deletions.sublist) i j iInside jInside
    before a b i_eq j_eq

theorem exists_survivor (deletions : Deletions text ops) {i : Nat}
    (inside : i < (survivors text.length ops).length) :
    ∃ k, (survivors text.length ops)[i]? = some (some k) := by
  obtain ⟨k, -, source⟩ := List.mem_map.mp (deletions.sublist.subset (List.getElem_mem inside))
  exact ⟨k, by rw [List.getElem?_eq_getElem inside, source]⟩

/-- The position is strictly inside the next deletion exactly if that takes
characters from both sides of it. -/
theorem inside_iff_sides (deletions : Deletions text ops) {pos len cut : Nat}
    (within : (Op.delete pos len).Within (spliceAll text ops).length)
    (separates : SeparatesAt x (survivors text.length ops) cut) :
    pos < cut ∧ cut < pos + len ↔
      (∃ k, k < x ∧ Removes text.length ops (.delete pos len) k) ∧
        ∃ k, x ≤ k ∧ Removes text.length ops (.delete pos len) k := by
  obtain ⟨room, next⟩ := survivors_delete within
  have inside : pos ≤ (survivors text.length ops).length := by omega
  simp only [Removes, next]
  constructor
  · rintro ⟨after, before⟩
    obtain ⟨a, atA⟩ := deletions.exists_survivor (by omega : cut - 1 < _)
    obtain ⟨b, atB⟩ := deletions.exists_survivor (by omega : cut < _)
    have sideA := separates.index_lt_iff atA
    have sideB := separates.index_lt_iff atB
    exact ⟨⟨a, by omega, List.mem_of_getElem? atA,
        lost_of_index deletions.nodup inside atA (by omega) (by omega)⟩,
      b, by omega, List.mem_of_getElem? atB,
        lost_of_index deletions.nodup inside atB (by omega) before⟩
  · rintro ⟨⟨a, front, hereA, lostA⟩, b, behind, hereB, lostB⟩
    obtain ⟨i, atA⟩ := List.mem_iff_getElem?.mp hereA
    obtain ⟨j, atB⟩ := List.mem_iff_getElem?.mp hereB
    have rangeA := index_of_lost inside atA lostA
    have rangeB := index_of_lost inside atB lostB
    have sideA := separates.index_lt_iff atA
    have sideB := separates.index_lt_iff atB
    omega

/-- A position of the committed text is refused exactly if one deletion takes
characters from both sides of it. -/
theorem refused_iff_straddled (deletions : Deletions text ops) (inText : x ≤ text.length) :
    transformOps ops x = .error .deletedPosition ↔ Straddled text.length ops x := by
  induction ops using List.reverseRecOn with
  | nil =>
      constructor
      · intro refused
        contradiction
      · rintro ⟨earlier, op, initial, -⟩
        simpa using initial.length_le
  | append_singleton ops op ih =>
      obtain ⟨earlier, isDeletion, last⟩ := deletions_concat.mp deletions
      rw [straddled_concat, ← ih earlier, transformOps_concat]
      cases moved : transformOps ops x with
      | error r => simp [Except.bind, transformOps_error moved]
      | ok cut =>
          cases op with
          | insert pos data => exact False.elim isDeletion
          | delete pos len =>
              rw [← earlier.inside_iff_sides last
                (transformOps_separatesAt earlier.within inText moved)]
              simp [Except.bind, transformOp_error_iff last]

/-- The characters next to a position strictly inside a deletion are lost. -/
theorem lost_of_inside (deletions : Deletions text ops) {pos len cut : Nat}
    (within : (Op.delete pos len).Within (spliceAll text ops).length)
    (separates : SeparatesAt x (survivors text.length ops) cut)
    (after : pos < cut) (before : cut < pos + len) {k : Nat} (next : k + 1 = x ∨ k = x) :
    some k ∉ survivors text.length (ops ++ [.delete pos len]) := by
  obtain ⟨room, left⟩ := survivors_delete within
  rw [left]
  intro member
  obtain ⟨_, kept⟩ := List.mem_iff_getElem?.mp member
  -- a kept neighbour would have another survivor between itself and the position
  obtain ⟨a, atA⟩ := deletions.exists_survivor (by omega : cut - 1 < _)
  obtain ⟨b, atB⟩ := deletions.exists_survivor (by omega : cut < _)
  have sideA := separates.index_lt_iff atA
  have sideB := separates.index_lt_iff atB
  rcases getElem?_replaceRange_cases (by omega) kept with ⟨_, old⟩ | ⟨_, _, new⟩ | ⟨_, _, old⟩
  · have side := separates.index_lt_iff old
    have ordered := deletions.sorted old atA
    omega
  · exact absurd new List.not_mem_nil
  · have side := separates.index_lt_iff old
    have ordered := deletions.sorted atB old
    omega

/-- Around a refused position both characters are gone. -/
theorem lost_of_straddled (deletions : Deletions text ops) (straddled : Straddled text.length ops x)
    (inText : x ≤ text.length) {k : Nat} (next : k + 1 = x ∨ k = x) :
    some k ∉ survivors text.length ops := by
  induction ops using List.reverseRecOn with
  | nil =>
      have refused := (deletions.refused_iff_straddled inText).mpr straddled
      contradiction
  | append_singleton ops op ih =>
      obtain ⟨earlier, isDeletion, last⟩ := deletions_concat.mp deletions
      rw [straddled_concat, ← earlier.refused_iff_straddled inText] at straddled
      cases moved : transformOps ops x with
      | error r =>
          obtain rfl := transformOps_error moved
          exact mt (fun kept => (survivors_delete_sublist isDeletion last).subset kept)
            (ih earlier ((earlier.refused_iff_straddled inText).mp moved))
      | ok cut =>
          cases op with
          | insert pos data => exact False.elim isDeletion
          | delete pos len =>
              have separates := transformOps_separatesAt earlier.within inText moved
              rw [moved, ← earlier.inside_iff_sides last separates] at straddled
              obtain ⟨after, before⟩ := straddled.resolve_left (by simp)
              exact earlier.lost_of_inside last separates after before next

end Deletions

/-! ## Windows of deletions -/

/-- A DEL command at the current version. -/
def deleteStep (s : Store) (d : Nat × Nat) : Store × MarkdownResult :=
  let out := Id.run (markdownDelete s s.version d.1 d.2)
  (out.2, out.1)

/-- The command deletes characters of the working text and reaches no further. -/
def DeletesInText (s : Store) (d : Nat × Nat) : Prop :=
  d.1 + d.2 ≤ s.workingText.length

instance (s : Store) (d : Nat × Nat) : Decidable (DeletesInText s d) :=
  inferInstanceAs (Decidable (_ ≤ _))

theorem Deletions.length_le {text : Text} {ops : List Op} (deletions : Deletions text ops) :
    (spliceAll text ops).length ≤ text.length := by
  simpa using deletions.sublist.length_le

/-- A DEL command in the text succeeds and keeps the window one of deletions. -/
theorem deleteStep_deletions {s : Store} (deletions : Deletions s.committedText s.pending)
    (small : s.committedText.length < sizeModulus) {d : Nat × Nat} (inText : DeletesInText s d) :
    (deleteStep s d).1.committedText = s.committedText ∧
      Deletions s.committedText (deleteStep s d).1.pending ∧ (deleteStep s d).2 = .success := by
  have shorter : s.workingText.length ≤ s.committedText.length := deletions.length_le
  unfold DeletesInText at inText
  have inside : ¬s.workingText.length < d.1 := by omega
  have fits : sizeAdd d.1 d.2 = d.1 + d.2 := sizeAdd_of_lt (by omega)
  have notBeyond : ¬s.workingText.length < d.1 + d.2 := by omega
  rw [deleteStep, run_markdownDelete]
  simp only [ne_eq, not_true_eq_false, if_false, planAt, if_neg inside, fits, if_neg notBeyond,
    Store.follow, and_true]
  split
  case isTrue => exact ⟨rfl, deletions⟩
  case isFalse =>
    refine ⟨Store.committedText_enqueueAll _ _, ?_⟩
    rw [Store.pending_enqueueAll, deletions_concat]
    exact ⟨deletions, trivial, inText, by omega⟩

/-- DEL commands in the text succeed one after the other. -/
theorem run_deleteStep_deletions {s : Store} (none : s.pending = [])
    (small : s.committedText.length < sizeModulus) {dels : List (Nat × Nat)}
    (inText : Meets deleteStep DeletesInText s dels) :
    (run deleteStep s dels).1.committedText = s.committedText ∧
      Deletions s.committedText (run deleteStep s dels).1.pending ∧
      ∀ r ∈ (run deleteStep s dels).2, r = .success := by
  apply inText.history fun results t => t.committedText = s.committedText ∧
    Deletions s.committedText t.pending ∧ ∀ r ∈ results, r = .success
  · rintro results t d inText ⟨text_eq, deletions, accepted⟩
    rw [← text_eq] at deletions small
    obtain ⟨same, next, success⟩ := deleteStep_deletions deletions small inText
    refine ⟨same.trans text_eq, text_eq ▸ next, ?_⟩
    intro r member
    rcases List.mem_append.mp member with earlier | last
    · exact accepted r earlier
    · rw [List.mem_singleton.mp last, success]
  · rw [none]
    exact ⟨rfl, ⟨by simp, trivial⟩, by simp⟩

/-! ## Deleted positions -/

/-- The committed character `k` is not in the working text. -/
def Deleted (s : Store) (k : Nat) : Prop :=
  some k ∉ survivors s.committedText.length s.pending

instance (s : Store) (k : Nat) : Decidable (Deleted s k) :=
  inferInstanceAs (Decidable (¬_))

/-- Inside the committed text, a position is refused exactly if the characters on
both sides of it are deleted. -/
def RefusesDeleted (s : Store) : Prop :=
  ∀ x, 0 < x → x < s.committedText.length →
    (transformPositionAfterPendingOps s x = .error .deletedPosition ↔
      Deleted s (x - 1) ∧ Deleted s x)

/-- In a window of deletions, the result of a range command is decided by the ends
of its range. -/
theorem formatStep_deletions {s : Store} (deletions : Deletions s.committedText s.pending)
    {c : RangeCommand} (ordered : c.start < c.stop) (inText : c.stop ≤ s.committedText.length) :
    ((Straddled s.committedText.length s.pending c.start ∨
        Straddled s.committedText.length s.pending c.stop) ∧
      formatStep s c = (s, .deletedPosition)) ∨
    (¬Straddled s.committedText.length s.pending c.start ∧
      ¬Straddled s.committedText.length s.pending c.stop) ∧
    (formatStep s c).2 = .success ∧
      ∃ start stop, Enclosed s c start stop (formatStep s c).1.workingText := by
  rw [← deletions.refused_iff_straddled (by omega : c.start ≤ _),
    ← deletions.refused_iff_straddled inText]
  rcases formatStep_cases deletions.within.inRange ordered inText with
    rejected | ⟨start, stop, startMoved, stopMoved, step⟩
  · exact .inl rejected
  · right
    rw [startMoved, stopMoved, step]
    exact ⟨by simp, rfl, start, stop,
      enclosed_of_moved deletions.within ordered inText startMoved stopMoved⟩

/-- A position at an end of the committed text has no characters on one side. -/
theorem Straddled.inside {n : Nat} {ops : List Op} {x : Nat} (straddled : Straddled n ops x) :
    0 < x ∧ x < n := by
  obtain ⟨_, _, _, ⟨_, front, _⟩, _, behind, here, _⟩ := straddled
  have := survivor_lt here
  omega

theorem refusesDeleted_iff_of_deletions {s : Store}
    (deletions : Deletions s.committedText s.pending) :
    RefusesDeleted s ↔
      ∀ x, 0 < x → x < s.committedText.length → Deleted s (x - 1) → Deleted s x →
        Straddled s.committedText.length s.pending x := by
  constructor
  · intro refuses x positive inText front behind
    rw [← deletions.refused_iff_straddled (Nat.le_of_lt inText),
      ← transformPositionAfterPendingOps_eq]
    exact (refuses x positive inText).mpr ⟨front, behind⟩
  · intro straddles x positive inText
    rw [transformPositionAfterPendingOps_eq,
      deletions.refused_iff_straddled (Nat.le_of_lt inText)]
    constructor
    · intro straddled
      exact ⟨deletions.lost_of_straddled straddled (Nat.le_of_lt inText) (by omega),
        deletions.lost_of_straddled straddled (Nat.le_of_lt inText) (by omega)⟩
    · rintro ⟨front, behind⟩
      exact straddles x positive inText front behind

theorem formatStep_refused_iff {s : Store} (deletions : Deletions s.committedText s.pending)
    {c : RangeCommand} (ordered : c.start < c.stop) (inText : c.stop ≤ s.committedText.length) :
    (formatStep s c).2 = .deletedPosition ↔
      Straddled s.committedText.length s.pending c.start ∨
        Straddled s.committedText.length s.pending c.stop := by
  rcases formatStep_deletions deletions ordered inText with
    ⟨straddled, rejected⟩ | ⟨⟨notStart, notStop⟩, success, _⟩
  · simp [rejected, straddled]
  · simp [success, notStart, notStop]

/-- Two windows of deletions on one text treat all range commands alike exactly if
the same positions are straddled. -/
theorem formatStep_alike_iff {text : Text} {s t : Store} (s_eq : s.committedText = text)
    (t_eq : t.committedText = text) (deletions : Deletions text s.pending)
    (others : Deletions text t.pending) :
    (∀ c, (formatStep s c).2 = (formatStep t c).2) ↔
      ∀ x, 0 < x → x < text.length →
        (Straddled text.length s.pending x ↔ Straddled text.length t.pending x) := by
  rw [← s_eq] at deletions
  rw [← t_eq] at others
  constructor
  · intro alike x positive inText
    -- the other end of this range is never straddled
    have byEnd {u : Store} (u_eq : u.committedText = text)
        (deletions : Deletions u.committedText u.pending) :
        (formatStep u (.bold x text.length)).2 = .deletedPosition ↔
          Straddled text.length u.pending x := by
      have refused := formatStep_refused_iff deletions (c := .bold x text.length) inText
        (Nat.le_of_eq (congrArg List.length u_eq.symm))
      rw [refused, u_eq]
      exact or_iff_left fun straddled => absurd straddled.inside.2 (Nat.lt_irrefl _)
    rw [← byEnd s_eq deletions, ← byEnd t_eq others, alike]
  · intro same c
    have whole (x : Nat) : Straddled text.length s.pending x ↔ Straddled text.length t.pending x :=
      ⟨fun straddled => (same x straddled.inside.1 straddled.inside.2).mp straddled,
        fun straddled => (same x straddled.inside.1 straddled.inside.2).mpr straddled⟩
    by_cases invalid : c.stop ≤ c.start ∨ text.length < c.stop
    · rw [formatStep_invalid deletions.within.inRange (by rwa [s_eq]),
        formatStep_invalid others.within.inRange (by rwa [t_eq])]
    · have ordered : c.start < c.stop := by omega
      have first := formatStep_deletions deletions ordered (by rw [s_eq]; omega)
      have second := formatStep_deletions others ordered (by rw [t_eq]; omega)
      simp only [s_eq, t_eq, whole] at first second
      rcases first with ⟨straddled, first⟩ | ⟨clear, first, -⟩
      · rcases second with ⟨-, second⟩ | ⟨clear, -⟩
        · rw [first, second]
        · exact absurd straddled (not_or.mpr clear)
      · rcases second with ⟨straddled, -⟩ | ⟨-, second, -⟩
        · exact absurd straddled (not_or.mpr clear)
        · rw [first, second]

/-- After any sequence of DEL commands in the text: positions are refused for
deleted characters exactly if every position whose two neighbours are gone is
straddled by a single deletion; and two sequences make all later range commands
succeed or fail alike exactly if they straddle the same positions. -/
theorem refusesDeleted_iff (s : Store) (none : s.pending = [])
    (small : s.committedText.length < sizeModulus) (dels : List (Nat × Nat))
    (inText : Meets deleteStep DeletesInText s dels) :
    let n := s.committedText.length
    let t := (run deleteStep s dels).1
    (RefusesDeleted t ↔
      ∀ x, 0 < x → x < n → Deleted t (x - 1) → Deleted t x → Straddled n t.pending x) ∧
    ∀ others, Meets deleteStep DeletesInText s others →
      let u := (run deleteStep s others).1
      (∀ c, (formatStep t c).2 = (formatStep u c).2) ↔
        ∀ x, 0 < x → x < n → (Straddled n t.pending x ↔ Straddled n u.pending x) := by
  intro n t
  obtain ⟨text_eq, deletions, -⟩ := run_deleteStep_deletions none small inText
  constructor
  · have exact := refusesDeleted_iff_of_deletions (text_eq ▸ deletions)
    rwa [text_eq] at exact
  · intro others othersInText
    obtain ⟨others_eq, otherDeletions, -⟩ := run_deleteStep_deletions none small othersInText
    exact formatStep_alike_iff text_eq others_eq deletions otherDeletions

/-- Of `abcdefgh`, `bc` and `fg` deleted in either order: the positions inside them are
refused, each straddled by its deletion, and the range commands are treated alike. -/
theorem refusesDeleted_iff_disjoint :
    let s := Store.snapshot 1 ⟨[], rfl⟩ (ascii "abcdefgh") 3
    let t := (run deleteStep s [(1, 2), (3, 2)]).1
    let u := (run deleteStep s [(5, 2), (1, 2)]).1
    survivors 8 t.pending = [some 0, some 3, some 4, some 7] ∧ RefusesDeleted t ∧
      ∀ c, (formatStep t c).2 = (formatStep u c).2 := by
  intro s t u
  have small : s.committedText.length < sizeModulus := by decide
  have inText : Meets deleteStep DeletesInText s [(1, 2), (3, 2)] := by decide
  have othersInText : Meets deleteStep DeletesInText s [(5, 2), (1, 2)] := by decide
  obtain ⟨-, deletions, -⟩ := run_deleteStep_deletions rfl small inText
  obtain ⟨-, others, -⟩ := run_deleteStep_deletions rfl small othersInText
  obtain ⟨refuses, alike⟩ := refusesDeleted_iff s rfl small [(1, 2), (3, 2)] inText
  refine ⟨by decide, refuses.mpr ?_, (alike [(5, 2), (1, 2)] othersInText).mpr ?_⟩
  · intro x positive within front behind
    rw [← deletions.refused_iff_straddled (Nat.le_of_lt within)]
    have found : ∀ x < 8, 0 < x → Deleted t (x - 1) → Deleted t x →
        transformOps t.pending x = .error .deletedPosition := by decide
    exact found x within positive front behind
  · intro x positive within
    rw [← deletions.refused_iff_straddled (Nat.le_of_lt within),
      ← others.refused_iff_straddled (Nat.le_of_lt within)]
    have same : ∀ x < 8, transformOps t.pending x = .error .deletedPosition ↔
        transformOps u.pending x = .error .deletedPosition := by decide
    exact same x within

/-- Of `abcd`, `bc` deleted one character at a time, or at once: the same characters
are left, and only the second way a bold range may not start between them. -/
theorem split_deletion_accepted :
    let s := (run editStep (Store.fresh 1 ⟨[], rfl⟩)
      [.edit 0 (.insert 0 (some (ascii "abcd"))), .increment]).1
    let t := (run deleteStep s [(1, 1), (1, 1)]).1
    let u := (run deleteStep s [(1, 2)]).1
    Meets deleteStep DeletesInText s [(1, 1), (1, 1)] ∧ ¬RefusesDeleted t ∧
      survivors 4 t.pending = survivors 4 u.pending ∧
      (formatStep t (.bold 2 4)).2 = .success ∧
      (formatStep u (.bold 2 4)).2 = .deletedPosition := by
  refine ⟨by decide, fun refuses => ?_, by decide, by decide, by decide⟩
  have refused := (refuses 2 (by decide) (by decide)).mpr ⟨by decide, by decide⟩
  exact absurd refused (by decide)

/-! ## Empty selections -/

/-- A command that succeeds has a character of its range between its delimiters,
and one on a range of deleted characters changes nothing. -/
structure FormatsSurvivors (s : Store) (c : RangeCommand) : Prop where
  accepted : (formatStep s c).2 = .success →
    ∃ start stop, Enclosed s c start stop (formatStep s c).1.workingText ∧
      ∃ i k, start ≤ i ∧ i < stop ∧
        (survivors s.committedText.length s.pending)[i]? = some (some k) ∧
        c.start ≤ k ∧ k < c.stop
  emptied : (∀ k, c.start ≤ k → k < c.stop → Deleted s k) →
    (formatStep s c).2 ≠ .success ∧ (formatStep s c).1 = s

/-- After any sequence of DEL commands in the text, a range command formats
survivors exactly if some are left of its range, or a single deletion straddles an
end of it. -/
theorem formatsSurvivors_iff (s : Store) (none : s.pending = [])
    (small : s.committedText.length < sizeModulus) (dels : List (Nat × Nat))
    (inText : Meets deleteStep DeletesInText s dels) (c : RangeCommand) :
    let n := s.committedText.length
    let t := (run deleteStep s dels).1
    FormatsSurvivors t c ↔
      (c.start < c.stop → c.stop ≤ n →
        (∃ k, c.start ≤ k ∧ k < c.stop ∧ ¬Deleted t k) ∨
          Straddled n t.pending c.start ∨ Straddled n t.pending c.stop) := by
  intro n t
  obtain ⟨text_eq, deletions, -⟩ := run_deleteStep_deletions none small inText
  have deletions : Deletions t.committedText t.pending := text_eq ▸ deletions
  have n_eq : t.committedText.length = n := congrArg List.length text_eq
  constructor
  · intro formats ordered inRange
    by_contra nothing
    obtain ⟨emptied, clear⟩ := not_or.mp nothing
    rcases formatStep_deletions deletions ordered (by omega) with
      ⟨straddled, -⟩ | ⟨-, success, -⟩
    · rw [n_eq] at straddled
      exact clear straddled
    · apply (formats.emptied _).1 success
      intro k after before
      by_contra left
      exact emptied ⟨k, after, before, left⟩
  · intro condition
    by_cases invalid : c.stop ≤ c.start ∨ n < c.stop
    · have refused : formatStep t c = (t, .invalidCursorPos) :=
        formatStep_invalid deletions.within.inRange (by rwa [n_eq])
      exact ⟨by simp [refused], by simp [refused]⟩
    · have ordered : c.start < c.stop := by omega
      rcases formatStep_deletions deletions ordered (by omega) with
        ⟨-, refused⟩ | ⟨clear, success, start, stop, enclosed⟩
      · exact ⟨by simp [refused], by simp [refused]⟩
      · rw [n_eq, ← not_or] at clear
        obtain ⟨k, after, before, left⟩ := (condition ordered (by omega)).resolve_right clear
        obtain ⟨i, found⟩ := List.mem_iff_getElem?.mp (Classical.not_not.mp left)
        obtain ⟨first, last⟩ := (enclosed.encloses i k found).mpr ⟨after, before⟩
        constructor
        · intro _
          exact ⟨start, stop, enclosed, i, k, first, last, found, after, before⟩
        · intro emptied
          exact absurd (emptied k after before) left

/-- A bold range of which the first character is left. -/
theorem formatsSurvivors_iff_partly :
    let t := (run deleteStep (Store.snapshot 1 ⟨[], rfl⟩ (ascii "abcd") 3) [(1, 1)]).1
    FormatsSurvivors t (.bold 0 2) ↔
      (0 < 2 → 2 ≤ 4 → (∃ k, 0 ≤ k ∧ k < 2 ∧ ¬Deleted t k) ∨
        Straddled 4 t.pending 0 ∨ Straddled 4 t.pending 2) :=
  formatsSurvivors_iff (Store.snapshot 1 ⟨[], rfl⟩ (ascii "abcd") 3) rfl (by decide) [(1, 1)]
    (by decide) (.bold 0 2)

/-- The middle of `hello` is deleted and then made bold. -/
theorem empty_selection_formatted :
    let s := (run editStep (Store.fresh 1 ⟨[], rfl⟩)
      [.edit 0 (.insert 0 (some (ascii "hello"))), .increment]).1
    let t := (run deleteStep s [(1, 3)]).1
    Meets deleteStep DeletesInText s [(1, 3)] ∧ ¬FormatsSurvivors t (.bold 1 4) ∧
      (formatStep t (.bold 1 4)).2 = .success ∧
      (formatStep t (.bold 1 4)).1.workingText = ascii "h****o" := by
  refine ⟨by decide, fun formats => ?_, by decide, by decide⟩
  have gone : ∀ k, k < 5 → 1 ≤ k → k < 4 →
      Deleted (run deleteStep (run editStep (Store.fresh 1 ⟨[], rfl⟩)
        [.edit 0 (.insert 0 (some (ascii "hello"))), .increment]).1 [(1, 3)]).1 k := by decide
  apply (formats.emptied _).1 (by decide)
  intro k after before
  exact gone k (Nat.lt_of_lt_of_le before (by decide)) after before

end CollabMarkdown.Markdown
