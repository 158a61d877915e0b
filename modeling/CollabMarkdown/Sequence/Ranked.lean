import CollabMarkdown.Sequence.Splice

/-!
# Inserting by rank

Items with a place each, in a list sorted by place.  The rank of a number is how
many items are placed before it, which is the position where a block with that
place goes: behind everything placed before it and in front of everything else,
older items of the same place included.
-/

namespace CollabMarkdown.Sequence

universe u

variable {α : Type u} (place : α → Nat)

/-- The number of items placed before `k`. -/
def rank (items : List α) (k : Nat) : Nat :=
  items.countP (place · < k)

variable {place} {items : List α} {j k : Nat}

theorem rank_mono (le : j ≤ k) : rank place items j ≤ rank place items k := by
  apply List.countP_mono_left
  intro item _ before
  simp only [decide_eq_true_eq] at before ⊢
  omega

/-- An item placed between two numbers separates their ranks. -/
theorem rank_lt {item : α} (member : item ∈ items) (atLeast : j ≤ place item)
    (below : place item < k) : rank place items j < rank place items k := by
  obtain ⟨before, after, rfl⟩ := List.append_of_mem member
  have head : rank place before j ≤ rank place before k := rank_mono (by omega)
  have tail : rank place after j ≤ rank place after k := rank_mono (by omega)
  have notBelow : ¬place item < j := by omega
  simp only [rank, List.countP_append, List.countP_cons, below, notBelow] at head tail ⊢
  simp
  omega

theorem rank_eq_zero (above : ∀ item ∈ items, k ≤ place item) : rank place items k = 0 := by
  apply List.countP_eq_zero.mpr
  intro item member
  simpa using above item member

theorem rank_cons_of_lt {item : α} (below : place item < k) :
    rank place (item :: items) k = rank place items k + 1 := by
  simp [rank, below]

/-- In a sorted list, the items placed before `k` come first. -/
theorem place_lt_of_mem_take (sorted : items.Pairwise (place · ≤ place ·)) {item : α}
    (member : item ∈ items.take (rank place items k)) : place item < k := by
  induction items with
  | nil => simp at member
  | cons first rest ih =>
      rw [List.pairwise_cons] at sorted
      by_cases below : place first < k
      · rw [rank_cons_of_lt below, List.take_succ_cons] at member
        rcases List.mem_cons.mp member with rfl | later
        · exact below
        · exact ih sorted.2 later
      · have none : rank place (first :: rest) k = 0 := by
          apply rank_eq_zero
          intro other inside
          rcases List.mem_cons.mp inside with rfl | later
          · omega
          · have := sorted.1 other later
            omega
        rw [none] at member
        simp at member

theorem le_place_of_mem_drop (sorted : items.Pairwise (place · ≤ place ·)) {item : α}
    (member : item ∈ items.drop (rank place items k)) : k ≤ place item := by
  induction items with
  | nil => simp at member
  | cons first rest ih =>
      rw [List.pairwise_cons] at sorted
      by_cases below : place first < k
      · rw [rank_cons_of_lt below, List.drop_succ_cons] at member
        exact ih sorted.2 member
      · rcases List.mem_cons.mp (List.mem_of_mem_drop member) with rfl | later
        · omega
        · have := sorted.1 item later
          omega

theorem mem_replaceRange_insert {pos : Nat} {block : List α} {item : α} :
    item ∈ replaceRange items pos pos block ↔ item ∈ items ∨ item ∈ block := by
  have parts : item ∈ items ↔ item ∈ items.take pos ∨ item ∈ items.drop pos := by
    rw [← List.mem_append, List.take_append_drop]
  simp only [replaceRange, List.mem_append, parts]
  grind

theorem rank_replaceRange_insert (pos : Nat) (block : List α) :
    rank place (replaceRange items pos pos block) k =
      rank place items k + rank place block k := by
  have parts : rank place items k =
      rank place (items.take pos) k + rank place (items.drop pos) k := by
    rw [rank, rank, rank, ← List.countP_append, List.take_append_drop]
  rw [parts, rank, replaceRange, List.countP_append, List.countP_append]
  simp only [rank]
  omega

/-- A block of one place, inserted at its rank, keeps a list in an order finer than
places. -/
theorem pairwise_insert_at_rank {order : α → α → Prop}
    (finer : ∀ first second, order first second → place first ≤ place second)
    (sorted : items.Pairwise order) {block : List α} (ordered : block.Pairwise order)
    (before : ∀ item ∈ items, place item < k → ∀ new ∈ block, order item new)
    (after : ∀ item ∈ items, k ≤ place item → ∀ new ∈ block, order new item) :
    (replaceRange items (rank place items k) (rank place items k) block).Pairwise order := by
  have byPlace : items.Pairwise (place · ≤ place ·) := sorted.imp (finer _ _)
  have whole : (items.take (rank place items k) ++ items.drop (rank place items k)).Pairwise
      order := by rwa [List.take_append_drop]
  obtain ⟨heads, tails, across⟩ := List.pairwise_append.mp whole
  rw [replaceRange, List.pairwise_append, List.pairwise_append]
  refine ⟨⟨heads, ordered, ?_⟩, tails, ?_⟩
  · intro item inside new isNew
    exact before item (List.mem_of_mem_take inside) (place_lt_of_mem_take byPlace inside) new isNew
  · intro item inside other isOther
    rcases List.mem_append.mp inside with head | isNew
    · exact across item head other isOther
    · exact after other (List.mem_of_mem_drop isOther) (le_place_of_mem_drop byPlace isOther)
        item isNew

end CollabMarkdown.Sequence
