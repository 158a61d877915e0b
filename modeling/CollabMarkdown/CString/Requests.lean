import CollabMarkdown.CString.Basic

/-!
# Requests for memory

A program that asks for several blocks in turn gives up at the first failure, so
all that matters of it is the list of the sizes.  `Faulty` is a process whose
allocations fail in a given pattern: a list of answers, one for each request, with
success once the list is used up.
-/

namespace CollabMarkdown.CString

/-- Two programs that go on from a request are compared answer by answer. -/
theorem bind_bool_congr {m : Type → Type} [Monad m] {α : Type} {request : m Bool}
    {next next' : Bool → m α} (granted : next true = next' true)
    (refused : next false = next' false) : request >>= next = request >>= next' := by
  congr 1
  funext ok
  cases ok with
  | true => exact granted
  | false => exact refused

section

variable {m : Type → Type} [Monad m] [MonadMalloc m]

/-- Ask for blocks in turn, up to the first failure. -/
def requestAll : List Nat → m Bool
  | [] => return true
  | size :: rest => do
      if ← malloc size then
        requestAll rest
      else
        return false

@[simp]
theorem requestAll_nil : (requestAll [] : m Bool) = pure true :=
  rfl

@[simp]
theorem run_requestAll (sizes : List Nat) : Id.run (requestAll sizes) = true := by
  induction sizes with
  | nil => rfl
  | cons size rest ih => simpa [requestAll] using ih

variable [LawfulMonad m]

@[simp]
theorem requestAll_singleton (size : Nat) : (requestAll [size] : m Bool) = malloc size := by
  have kept (ok : Bool) : (if ok then pure true else pure false : m Bool) = pure ok := by
    cases ok <;> rfl
  simp only [requestAll, kept, bind_pure]

/-- A list of requests splits anywhere. -/
theorem requestAll_append (first second : List Nat) :
    (requestAll (first ++ second) : m Bool) = do
      if ← requestAll first then
        requestAll second
      else
        return false := by
  induction first with
  | nil => simp
  | cons size rest ih =>
      rw [List.cons_append, requestAll, requestAll, bind_assoc]
      apply bind_bool_congr
      · simpa using ih
      · simp

end

/-! ## Patterns of failures -/

/-- What the allocator answers, request by request. -/
abbrev Answers := List Bool

/-- A process under a pattern of answers. -/
abbrev Faulty := StateM Answers

instance : MonadMalloc Faulty where
  malloc _ := fun
    | [] => (true, [])
    | ok :: rest => (ok, rest)

namespace Faulty

variable {α β : Type}

/-- The result of a program under a pattern, and the answers it has not used. -/
def run (program : Faulty α) (answers : Answers) : α × Answers :=
  Id.run (StateT.run program answers)

@[simp]
theorem run_pure (a : α) (answers : Answers) : run (pure a) answers = (a, answers) :=
  rfl

@[simp]
theorem run_bind (program : Faulty α) (next : α → Faulty β) (answers : Answers) :
    run (program >>= next) answers =
      run (next (run program answers).1) (run program answers).2 :=
  rfl

/-- No request among the next `n` fails. -/
def Spares (answers : Answers) (n : Nat) : Prop :=
  false ∉ answers.take n

instance (answers : Answers) (n : Nat) : Decidable (Spares answers n) :=
  inferInstanceAs (Decidable (false ∉ answers.take n))

theorem spares_zero (answers : Answers) : Spares answers 0 := by
  simp [Spares]

theorem spares_add {answers : Answers} {n k : Nat} :
    Spares answers (n + k) ↔ Spares answers n ∧ Spares (answers.drop n) k := by
  simp only [Spares, List.take_add, List.mem_append, not_or]

/-- The request number `k`, counted from zero, is the first to fail. -/
def FailsAt (answers : Answers) (k : Nat) : Prop :=
  Spares answers k ∧ answers[k]? = some false

instance (answers : Answers) (k : Nat) : Decidable (FailsAt answers k) :=
  inferInstanceAs (Decidable (_ ∧ _))

theorem failsAt_add {answers : Answers} {n k : Nat} :
    FailsAt answers (n + k) ↔ Spares answers n ∧ FailsAt (answers.drop n) k := by
  simp only [FailsAt, spares_add, List.getElem?_drop, and_assoc]

theorem FailsAt.not_spares {answers : Answers} {n k : Nat} (fails : FailsAt answers k)
    (among : k < n) : ¬Spares answers n := by
  intro spared
  apply spared
  rw [List.mem_take_iff_getElem]
  obtain ⟨bound, value⟩ := List.getElem?_eq_some_iff.mp fails.2
  exact ⟨k, by omega, value⟩

/-- At most one request is the first to fail. -/
theorem FailsAt.unique {answers : Answers} {k k' : Nat} (fails : FailsAt answers k)
    (fails' : FailsAt answers k') : k = k' := by
  rcases Nat.lt_trichotomy k k' with before | same | behind
  · exact absurd fails'.1 (fails.not_spares before)
  · exact same
  · exact absurd fails.1 (fails'.not_spares behind)

/-- The next request succeeds or fails. -/
theorem run_malloc (size : Nat) (answers : Answers) :
    (Spares answers 1 ∧ run (malloc size) answers = (true, answers.drop 1)) ∨
      FailsAt answers 0 ∧ run (malloc size) answers = (false, answers.drop 1) := by
  match answers with
  | [] => exact .inl ⟨by simp [Spares], rfl⟩
  | true :: rest => exact .inl ⟨by simp [Spares], rfl⟩
  | false :: rest => exact .inr ⟨⟨spares_zero _, rfl⟩, rfl⟩

/-- A list of requests is granted, or one of them fails and the rest is not made. -/
theorem run_requestAll (sizes : List Nat) (answers : Answers) :
    (Spares answers sizes.length ∧
        run (requestAll sizes) answers = (true, answers.drop sizes.length)) ∨
      ∃ k < sizes.length, FailsAt answers k ∧
        run (requestAll sizes) answers = (false, answers.drop (k + 1)) := by
  induction sizes generalizing answers with
  | nil => exact .inl ⟨spares_zero answers, rfl⟩
  | cons size rest ih =>
      rcases run_malloc size answers with ⟨spared, granted⟩ | ⟨fails, refused⟩
      · rcases ih (answers.drop 1) with ⟨later, all⟩ | ⟨k, bound, later, stops⟩
        · left
          rw [List.length_cons, Nat.add_comm, spares_add]
          constructor
          · exact ⟨spared, later⟩
          · rw [requestAll, run_bind, granted]
            simpa [List.drop_drop, Nat.add_comm] using all
        · right
          refine ⟨1 + k, by rw [List.length_cons]; omega, failsAt_add.mpr ⟨spared, later⟩, ?_⟩
          rw [requestAll, run_bind, granted]
          simpa [List.drop_drop, Nat.add_comm, Nat.add_left_comm] using stops
      · right
        refine ⟨0, by simp, fails, ?_⟩
        rw [requestAll, run_bind, refused]
        rfl

end Faulty

end CollabMarkdown.CString
