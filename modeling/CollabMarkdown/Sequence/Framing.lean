import Mathlib.Data.List.Basic

/-!
# Framed sequences

Items are written as frames, each ended by a delimiter that no frame contains, and
a sequence of them is closed by a frame of its own.  Such a sequence can be read
back, also from the front of a longer stream.  Inside a frame a field of free text
may stand in front of a word from a suffix-free code.

A reader that is fed such a stream in pieces is `Resumable` when more input does
not change what it has read.
-/

namespace CollabMarkdown.Sequence

universe u v

variable {α : Type u} {ι : Type v}

/-! ## Suffix-free codes -/

/-- No code word ends in the word of another item. -/
def SuffixFree (code : ι → List α) : Prop :=
  ∀ ⦃i j : ι⦄, code i <:+ code j → i = j

/-- Free text followed by a word of a suffix-free code determines both. -/
theorem SuffixFree.append_inj {code : ι → List α} (free : SuffixFree code) {text text' : List α}
    {i j : ι} (same : text ++ code i = text' ++ code j) : text = text' ∧ i = j := by
  have index : i = j := by
    rcases List.append_eq_append_iff.mp same with ⟨between, -, tail⟩ | ⟨between, -, tail⟩
    · exact (free ⟨between, tail.symm⟩).symm
    · exact free ⟨between, tail.symm⟩
  subst index
  exact ⟨List.append_cancel_right same, rfl⟩

/-! ## Delimited frames -/

variable {delim : α}

/-- A frame without the delimiter is determined by the stream that starts with it. -/
theorem frame_inj {frame frame' rest rest' : List α} (absent : delim ∉ frame)
    (absent' : delim ∉ frame') (same : frame ++ delim :: rest = frame' ++ delim :: rest') :
    frame = frame' ∧ rest = rest' := by
  induction frame generalizing frame' with
  | nil =>
      cases frame' with
      | nil => exact ⟨rfl, List.tail_eq_of_cons_eq same⟩
      | cons c others =>
          have head : delim = c := List.head_eq_of_cons_eq same
          exact absurd (head ▸ List.mem_cons_self) absent'
  | cons c frame ih =>
      cases frame' with
      | nil =>
          have head : c = delim := List.head_eq_of_cons_eq same
          exact absurd (head ▸ List.mem_cons_self) absent
      | cons d others =>
          have head : c = d := List.head_eq_of_cons_eq same
          obtain ⟨frames, rests⟩ := ih
            (fun inside => absent (List.mem_cons_of_mem _ inside))
            (fun inside => absent' (List.mem_cons_of_mem _ inside))
            (List.tail_eq_of_cons_eq same)
          exact ⟨by rw [head, frames], rests⟩

/-- What a family of frames needs for its sequences to be read back: no frame
contains the delimiter or equals the closing frame, and frames of different items
differ. -/
structure Framed (delim : α) (stop : List α) (valid : ι → Prop) (frame : ι → List α) : Prop where
  stop_whole : delim ∉ stop
  whole : ∀ i, valid i → delim ∉ frame i
  goes_on : ∀ i, valid i → frame i ≠ stop
  distinct : ∀ i j, valid i → valid j → frame i = frame j → i = j

namespace Framed

variable {stop : List α} {valid : ι → Prop} {frame : ι → List α}

/-- The items in front of the closing frame, and the stream behind it, are
determined by the whole stream. -/
theorem flatMap_inj (framed : Framed delim stop valid frame) {items items' : List ι}
    {rest rest' : List α} (itemsValid : ∀ i ∈ items, valid i) (itemsValid' : ∀ i ∈ items', valid i)
    (same : items.flatMap (fun i => frame i ++ [delim]) ++ (stop ++ delim :: rest) =
      items'.flatMap (fun i => frame i ++ [delim]) ++ (stop ++ delim :: rest')) :
    items = items' ∧ rest = rest' := by
  induction items generalizing items' with
  | nil =>
      cases items' with
      | nil => exact ⟨rfl, (frame_inj framed.stop_whole framed.stop_whole same).2⟩
      | cons j others =>
          have validJ := itemsValid' j List.mem_cons_self
          simp only [List.flatMap_nil, List.nil_append, List.flatMap_cons, List.append_assoc,
            List.cons_append] at same
          have closed := (frame_inj framed.stop_whole (framed.whole j validJ) same).1
          exact absurd closed.symm (framed.goes_on j validJ)
  | cons i items ih =>
      have validI := itemsValid i List.mem_cons_self
      cases items' with
      | nil =>
          simp only [List.flatMap_nil, List.nil_append, List.flatMap_cons, List.append_assoc,
            List.cons_append] at same
          have closed := (frame_inj (framed.whole i validI) framed.stop_whole same).1
          exact absurd closed (framed.goes_on i validI)
      | cons j others =>
          have validJ := itemsValid' j List.mem_cons_self
          simp only [List.nil_append, List.flatMap_cons, List.append_assoc,
            List.cons_append] at same
          obtain ⟨head, tail⟩ :=
            frame_inj (framed.whole i validI) (framed.whole j validJ) same
          obtain ⟨itemsEq, restEq⟩ := ih
            (fun k member => itemsValid k (List.mem_cons_of_mem _ member))
            (fun k member => itemsValid' k (List.mem_cons_of_mem _ member)) tail
          rw [framed.distinct i j validI validJ head, itemsEq]
          exact ⟨rfl, restEq⟩

end Framed

/-! ## Readers -/

/-- A reader of the front of a stream, absent while it needs more: once it returns,
what arrives later stays behind what it left. -/
def Resumable {β : Type v} (read : List α → Option (β × List α)) : Prop :=
  ∀ ⦃pending : List α⦄ ⦃value : β⦄ ⦃rest : List α⦄ (more : List α),
    read pending = some (value, rest) → read (pending ++ more) = some (value, rest ++ more)

/-- A reader of a unit returns as soon as the unit is there, and not before. -/
theorem Resumable.cases {β : Type v} {read : List α → Option (β × List α)}
    (resumable : Resumable read) {whole : List α} {value : β}
    (reads : ∀ rest, read (whole ++ rest) = some (value, rest)) {pending later rest : List α}
    (stream : pending ++ later = whole ++ rest) :
    (∃ left, pending = whole ++ left ∧ read pending = some (value, left)) ∨
      (¬whole <+: pending ∧ read pending = none) := by
  by_cases there : whole <+: pending
  · obtain ⟨left, rfl⟩ := there
    exact .inl ⟨left, rfl, reads left⟩
  · refine .inr ⟨there, ?_⟩
    have shorter : pending <+: whole := by
      rcases List.prefix_or_prefix_of_prefix ⟨later, stream⟩ ⟨rest, rfl⟩ with before | behind
      · exact before
      · exact absurd behind there
    obtain ⟨more, missing⟩ := shorter
    cases early : read pending with
    | none => rfl
    | some out =>
        have complete := resumable more early
        have alone := reads []
        rw [List.append_nil] at alone
        rw [missing, alone, Option.some.injEq, Prod.mk.injEq] at complete
        have nothing : more = [] := (List.append_eq_nil_iff.mp complete.2.symm).2
        rw [nothing, List.append_nil] at missing
        exact absurd (missing ▸ List.prefix_rfl) there

end CollabMarkdown.Sequence
