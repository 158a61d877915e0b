import CollabMarkdown.Markdown.Session
import CollabMarkdown.Markdown.Trace

/-!
# Calls that run out of memory

What the calls of the engine leave behind when the allocator fails in a given
pattern.  An edit call links the operations of its trace up to the request that
fails, so those it leaves are a prefix of its plan.  A version increment applies
everything or nothing.
-/

namespace CollabMarkdown.Markdown

open CollabMarkdown.CString

/-! ## Counting requests -/

/-- The number of requests of a trace. -/
def requestCount : List TraceItem → Nat
  | [] => 0
  | .request _ :: rest => 1 + requestCount rest
  | .link _ :: rest => requestCount rest

theorem requestCount_append (first second : List TraceItem) :
    requestCount (first ++ second) = requestCount first + requestCount second := by
  induction first with
  | nil => simp [requestCount]
  | cons item rest ih => cases item <;> simp [requestCount, ih, Nat.add_assoc]

/-! ## Traces under a pattern -/

/-- A call follows its whole trace, or stops at the first request that fails. -/
theorem CallTrace.run_faulty (trace : CallTrace) (s : Store) (answers : Answers) :
    (Faulty.Spares answers (requestCount trace.items) ∧
      Faulty.run (trace.run s) answers =
        ((trace.result, s.enqueueAll (linksOf trace.items)),
          answers.drop (requestCount trace.items))) ∨
    ∃ made size rest, trace.items = made ++ .request size :: rest ∧
      Faulty.FailsAt answers (requestCount made) ∧
      Faulty.run (trace.run s) answers =
        ((.invalidCursorPos, s.enqueueAll (linksOf made)),
          answers.drop (requestCount made + 1)) := by
  obtain ⟨items, result⟩ := trace
  simp only [CallTrace.run]
  induction items generalizing s answers with
  | nil => exact .inl ⟨Faulty.spares_zero answers, rfl⟩
  | cons item rest ih =>
      cases item with
      | link op =>
          rcases ih (s.enqueue op) answers with ⟨spared, all⟩ | ⟨made, size, later, split, stops⟩
          · exact .inl ⟨spared, all⟩
          · exact .inr ⟨.link op :: made, size, later, congrArg _ split, stops⟩
      | request asked =>
          rcases Faulty.run_malloc asked answers with ⟨spared, granted⟩ | ⟨fails, refused⟩
          · rcases ih s (answers.drop 1) with
              ⟨later, all⟩ | ⟨made, size, later, split, fails, stops⟩
            · left
              constructor
              · exact Faulty.spares_add.mpr ⟨spared, later⟩
              · rw [after, Faulty.run_bind, granted, requestCount, ← List.drop_drop]
                exact all
            · right
              refine ⟨.request asked :: made, size, later, congrArg _ split,
                Faulty.failsAt_add.mpr ⟨spared, fails⟩, ?_⟩
              rw [after, Faulty.run_bind, granted, requestCount, Nat.add_assoc, ← List.drop_drop]
              exact stops
          · right
            refine ⟨[], asked, rest, rfl, fails, ?_⟩
            rw [after, Faulty.run_bind, refused]
            rfl

/-! ## Edit calls -/

/-- The operations that a call links when nothing fails. -/
def Edit.links (s : Store) (version : UInt64) (e : Edit) : List Op :=
  linksOf (e.trace s version).items

theorem Edit.links_of_stale (e : Edit) {s : Store} {version : UInt64}
    (stale : version ≠ s.version) : e.links s version = [] := by
  rw [Edit.links, Edit.trace, if_pos stale]
  rfl

/-- At the current version a call links what it plans, and returns the code of its
plan. -/
theorem Edit.trace_cases (e : Edit) (s : Store) :
    (∃ ops, e.plan s.committedText s.pending = .ok ops ∧ e.links s s.version = ops ∧
      (e.trace s s.version).result = .success) ∨
    ∃ r, e.plan s.committedText s.pending = .error r ∧ e.links s s.version = [] ∧
      (e.trace s s.version).result = r := by
  have current : e.trace s s.version =
      .ofPlan (e.checks s) (e.items s) (e.plan s.committedText s.pending) :=
    if_neg fun stale => stale rfl
  rw [Edit.links, current]
  cases planned : e.plan s.committedText s.pending with
  | ok ops => exact .inl ⟨ops, rfl, linksOf_items e s planned, rfl⟩
  | error r => exact .inr ⟨r, rfl, linksOf_checks e s, rfl⟩

theorem Edit.links_inRange (e : Edit) {s : Store} (sound : s.Sound) (version : UInt64) :
    AllInRange s.committedText (s.pending ++ e.links s version) := by
  by_cases stale : version ≠ s.version
  · rw [e.links_of_stale stale, List.append_nil]
    exact sound
  · rw [not_not.mp stale]
    rcases e.trace_cases s with ⟨ops, planned, links_eq, -⟩ | ⟨r, -, links_eq, -⟩
    · rw [links_eq]
      exact e.plan_inRange sound planned
    · rw [links_eq, List.append_nil]
      exact sound

/-- Whatever fails, a call leaves a prefix of the operations it would link. -/
theorem Edit.run_faulty (e : Edit) {s : Store} (sound : s.Sound) (version : UInt64)
    (answers : Answers) :
    ∃ ops, ops <+: e.links s version ∧
      (Faulty.run (e.run s version) answers).1.2 = s.enqueueAll ops := by
  rw [e.run_eq_trace sound version]
  rcases (e.trace s version).run_faulty s answers with
    ⟨-, all⟩ | ⟨made, size, rest, split, -, stops⟩
  · exact ⟨e.links s version, List.prefix_rfl, by rw [all]; rfl⟩
  · refine ⟨linksOf made, ?_, by rw [stops]⟩
    rw [Edit.links, split, linksOf_append]
    exact List.prefix_append _ _

/-! ## Version increments -/

namespace Store

/-- What a version increment asks for: the working text, a buffer to renumber it
into, and a chunk if the document has none. -/
def incrementSizes (s : Store) : List Nat :=
  s.workingSizes ++ (s.workingText.length + 1) ::
    match s.doc.committedHead with
    | some _ => []
    | none => [sizeofChunk]

end Store

/-- An increment commits, or leaves the store as it was. -/
theorem markdownIncrementVersion_eq {m : Type → Type} [Monad m] [MonadMalloc m] [LawfulMonad m]
    (s : Store) :
    (markdownIncrementVersion s : m Store) = do
      if ← requestAll s.incrementSizes then
        return s.commit
      else
        return s := by
  rw [markdownIncrementVersion, getWorkingText_eq, Store.incrementSizes, requestAll_append]
  simp only [bind_assoc]
  apply bind_bool_congr
  · simp only [if_true, pure_bind, renumberOrderedLists, requestAll, bind_assoc]
    apply bind_bool_congr
    · cases held : s.doc.committedHead with
      | some chunk => simp [commitText, held, Store.commit]
      | none =>
          simp only [if_true, pure_bind, commitText, held, requestAll_singleton, bind_assoc]
          apply bind_bool_congr <;> simp [Store.commit]
    · simp
  · simp

/-- Under a pattern, an increment commits if none of its requests fails. -/
theorem markdownIncrementVersion_faulty (s : Store) (answers : Answers) :
    (Faulty.Spares answers s.incrementSizes.length ∧
      Faulty.run (markdownIncrementVersion s) answers =
        (s.commit, answers.drop s.incrementSizes.length)) ∨
    ∃ k < s.incrementSizes.length, Faulty.FailsAt answers k ∧
      Faulty.run (markdownIncrementVersion s) answers = (s, answers.drop (k + 1)) := by
  rw [markdownIncrementVersion_eq]
  rcases Faulty.run_requestAll s.incrementSizes answers with
    ⟨spared, granted⟩ | ⟨k, bound, fails, refused⟩
  · left
    constructor
    · exact spared
    · rw [Faulty.run_bind, granted]
      rfl
  · right
    refine ⟨k, bound, fails, ?_⟩
    rw [Faulty.run_bind, refused]
    rfl

end CollabMarkdown.Markdown
