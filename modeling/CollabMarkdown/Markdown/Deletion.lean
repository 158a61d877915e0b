import CollabMarkdown.Markdown.Session

/-!
# Deletions that flow past the end

A deletion may reach beyond the end of the working text and is cut off there.  The
end is computed as a machine word, in `markdown_delete` and again when the
operation is applied, so a length for which that sum wraps around is not seen to
reach the end, and text in front of the cursor is copied a second time.
-/

namespace CollabMarkdown.Markdown

open CollabMarkdown.CString
open CollabMarkdown.Transition

/-- What a deletion at the current version is to do: refuse a position beyond the
end, and else remove the requested characters up to the end and nothing else. -/
structure DeletesExactly (s : Store) (pos len : Nat) : Prop where
  refused : (Id.run (markdownDelete s s.version pos len)).1 = .invalidCursorPos ↔
    s.workingText.length < pos
  accepted : pos ≤ s.workingText.length →
    (Id.run (markdownDelete s s.version pos len)).1 = .success ∧
      (Id.run (markdownDelete s s.version pos len)).2.workingText =
        s.workingText.take pos ++
          s.workingText.drop (pos + min len (s.workingText.length - pos))
  shrinks : (Id.run (markdownDelete s s.version pos len)).2.workingText.Sublist s.workingText

/-- The call refuses exactly the positions beyond the end. -/
theorem run_markdownDelete_outside {s : Store} {pos : Nat} (len : Nat)
    (outside : s.workingText.length < pos) :
    Id.run (markdownDelete s s.version pos len) = (.invalidCursorPos, s) := by
  rw [run_markdownDelete]
  simp [planAt, outside, Store.follow]

/-- Inside the text the call succeeds, and what it leaves is the text up to the
cursor and the text from the wrapped sum on. -/
theorem run_markdownDelete_inside {s : Store} {pos : Nat} (len : Nat) (small : pos < sizeModulus)
    (inside : pos ≤ s.workingText.length) :
    (Id.run (markdownDelete s s.version pos len)).1 = .success ∧
      (Id.run (markdownDelete s s.version pos len)).2.workingText =
        s.workingText.take pos ++ s.workingText.drop (sizeAdd pos len) := by
  rw [run_markdownDelete]
  simp only [ne_eq, not_true_eq_false, if_false, planAt, Nat.not_lt.mpr inside, Store.follow,
    true_and]
  by_cases empty : len = 0
  · subst empty
    rw [if_pos rfl, Store.enqueueAll_nil, sizeAdd_of_lt small, Nat.add_zero,
      List.take_append_drop]
  · rw [if_neg empty, Store.workingText_enqueueAll, spliceAll_cons, spliceAll_nil]
    by_cases beyond : s.workingText.length < sizeAdd pos len
    · have fits : pos + (s.workingText.length - pos) < sizeModulus := by
        have bound : sizeAdd pos len < sizeModulus := Nat.mod_lt _ (by decide)
        omega
      have inRange : (Op.delete pos (s.workingText.length - pos)).InRange s.workingText.length :=
        ⟨inside, by rw [sizeAdd_of_lt fits]; omega⟩
      rw [if_pos beyond, splice_delete inRange, sizeAdd_of_lt fits,
        List.drop_of_length_le (Nat.le_of_lt beyond), List.drop_of_length_le (by omega)]
    · have inRange : (Op.delete pos len).InRange s.workingText.length :=
        ⟨inside, Nat.le_of_not_lt beyond⟩
      rw [if_neg beyond, splice_delete inRange]

/-- Cutting at the end makes no difference to what is left. -/
theorem drop_clamped (text : Text) {pos len : Nat} (inside : pos ≤ text.length) :
    text.drop (pos + min len (text.length - pos)) = text.drop (pos + len) := by
  rcases Nat.le_total len (text.length - pos) with short | long
  · rw [Nat.min_eq_left short]
  · rw [Nat.min_eq_right long, List.drop_of_length_le (by omega),
      List.drop_of_length_le (by omega)]

/-- A deletion does what it is to do exactly when it is refused or its end fits a
machine word. -/
theorem markdownDelete_exact_iff (s : Store) (pos len : UInt64) :
    DeletesExactly s pos.toNat len.toNat ↔
      s.workingText.length < pos.toNat ∨ pos.toNat + len.toNat < sizeModulus := by
  have small : pos.toNat < sizeModulus := pos.toNat_lt
  have lenSmall : len.toNat < sizeModulus := len.toNat_lt
  constructor
  · intro exact
    by_contra neither
    obtain ⟨inside, wraps⟩ := not_or.mp neither
    have inside := Nat.le_of_not_lt inside
    have result := (run_markdownDelete_inside len.toNat small inside).2
    have wrapped : sizeAdd pos.toNat len.toNat = pos.toNat + len.toNat - sizeModulus :=
      sizeAdd_of_wraps (Nat.le_of_not_lt wraps) (by omega)
    have longer := exact.shrinks.length_le
    rw [result, wrapped, List.length_append, List.length_take, List.length_drop] at longer
    omega
  · rintro (outside | fits)
    · have refused := run_markdownDelete_outside len.toNat outside
      constructor
      · exact ⟨fun _ => outside, fun _ => congrArg Prod.fst refused⟩
      · intro inside
        omega
      · rw [refused]
    · by_cases inside : pos.toNat ≤ s.workingText.length
      · obtain ⟨succeeds, result⟩ := run_markdownDelete_inside len.toNat small inside
        rw [sizeAdd_of_lt fits] at result
        constructor
        · rw [succeeds]
          exact ⟨fun refused => by contradiction, fun outside => by omega⟩
        · intro _
          rw [drop_clamped _ inside]
          exact ⟨succeeds, result⟩
        · rw [result]
          conv_rhs => rw [← List.take_append_drop pos.toNat s.workingText]
          apply List.Sublist.append_left
          exact List.drop_sublist_drop_left _ (Nat.le_add_right _ _)
      · have refused := run_markdownDelete_outside len.toNat (Nat.lt_of_not_le inside)
        constructor
        · exact ⟨fun _ => Nat.lt_of_not_le inside, fun _ => congrArg Prod.fst refused⟩
        · exact fun stays => absurd stays inside
        · rw [refused]

/-- A reachable document that reads `abcdef`, and the largest length at its last
character: `e` is copied twice. -/
theorem markdownDelete_duplicates :
    let s :=
      (run editStep (Store.fresh 0 ⟨[], rfl⟩) [.edit 0 (.insert 0 (some (ascii "abcdef")))]).1
    ¬DeletesExactly s 5 18446744073709551615 ∧
      (Id.run (markdownDelete s s.version 5 18446744073709551615)).2.workingText =
        ascii "abcdeef" := by
  intro s
  have result : (Id.run (markdownDelete s s.version 5 18446744073709551615)).2.workingText =
      ascii "abcdeef" := by decide
  refine ⟨fun exact => ?_, result⟩
  have shorter := exact.shrinks.length_le
  rw [result] at shorter
  exact absurd shorter (by decide)

end CollabMarkdown.Markdown
