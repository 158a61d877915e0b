import CollabMarkdown.Command.Grammar
import CollabMarkdown.Core.Faulty
import CollabMarkdown.Markdown.PlainText

/-!
# The shared text stays plain

Commands are validated byte by byte before they are parsed, and parsing only takes
pieces of them, so what a submission inserts is plain whatever bytes its line
holds.  The invariant is `Store.Plain`; it survives failed allocations, because a
submission leaves a prefix of its operations.
-/

namespace CollabMarkdown.Core

open CollabMarkdown.CString
open CollabMarkdown.Command
open CollabMarkdown.Markdown
open CollabMarkdown.Transition

/-! ## Command lines -/

theorem plainText_of_validBytes {line : Text} (valid : validBytes line = true) :
    PlainText line :=
  fun _ member => newline_or_printable valid member

/-- A line that is accepted asks for an edit with plain text. -/
theorem parseLine_plain {role : UserRole} {line : Text} {e : Edit}
    (parsed : parseLine role line = .ok e) : e.Plain := by
  have valid := (parseLine_numbers parsed).1.1
  have plain : PlainText line := plainText_of_validBytes (Bool.and_eq_true_iff.mp valid).2
  have carried : ∀ text ∈ payload e, PlainText text := fun text member =>
    plain.subset (parseLine_payload parsed text member)
  cases e with
  | insert pos content =>
      cases content with
      | none => exact plainText_nil
      | some text => exact carried text List.mem_cons_self
  | link start stop url =>
      cases url with
      | none => exact plainText_nil
      | some text => exact carried text List.mem_cons_self
  | _ => trivial

theorem planLine_plain (role : UserRole) (line committed : Text) (pending : List Op) :
    ∀ op ∈ (planLine role line committed pending).2, op.Plain := by
  rcases planLine_cases role line committed pending with
    ⟨edit, ops, parsed, planned, eq⟩ | ⟨r, -, eq⟩
  · rw [eq]
    exact edit.plan_plain (parseLine_plain parsed) planned
  · rw [eq]
    exact fun _ member => absurd member List.not_mem_nil

/-! ## Runs -/

theorem faultyStep_plain {srv : Server} (intact : srv.Intact) (plain : srv.store.Plain)
    (step : FaultyStep) : (faultyStep srv step).1.store.Plain := by
  obtain ⟨call, answers⟩ := step
  rcases call.cases with ⟨user, role, line, missing, rfl⟩ | ⟨user, role, line, rfl⟩ | rfl
  · rwa [faultyStep_submit_null srv role answers missing]
  · obtain ⟨ops, linked, left⟩ := intact.submit_cases user role line answers
    have plainOps : ∀ op ∈ ops, op.Plain := fun op member =>
      planLine_plain role line _ _ op (linked.subset member)
    rcases left with ⟨entry, left⟩ | left
    · rw [faultyStep_submit, left]
      exact plain.enqueueAll plainOps
    · rw [faultyStep_submit, left]
      exact plain.enqueueAll plainOps
  · have advanced : srv.advanced.store.Plain := by
      unfold Server.advanced
      split
      · exact plain.commit
      · exact plain
    rcases intact.commit_cases answers with left | left | left | left
    · rw [faultyStep_commit, left, ← srv.cleared_advanced]
      exact advanced
    · rwa [faultyStep_commit, left]
    · rw [faultyStep_commit, left]
      exact plain
    · rwa [faultyStep_commit, left]

/-- The shared document stays plain text, and its stored length is the length of the
flattened text, in every state a run reaches: for lines of any bytes and any
length, from any role, and whatever allocations fail. -/
theorem shared_text_is_plain (addr : DocAddr) (others : OtherOps addr)
    (steps : List FaultyStep) :
    let srv := (run faultyStep (Server.fresh addr others) steps).1
    PlainText srv.store.workingText ∧ PlainText srv.store.committedText ∧
      ∃ chunk text, srv.core.doc.committedHead = some chunk ∧
        Id.run (serverCoreFlattenDoc srv) = some text ∧ chunk.length = text.length := by
  intro srv
  have fresh : (Server.fresh addr others).store.Plain :=
    ⟨plainText_nil, by
      have none : (Server.fresh addr others).store.pending = [] :=
        Store.pending_fresh addr others
      rw [none]
      exact fun _ member => absurd member List.not_mem_nil⟩
  obtain ⟨intact, plain⟩ : srv.Intact ∧ srv.store.Plain :=
    run_invariant faultyStep (fun srv => srv.Intact ∧ srv.store.Plain)
      (fun srv step both =>
        ⟨faultyStep_intact srv step both.1, faultyStep_plain both.1 both.2 step⟩)
      ⟨(Server.coherent_fresh addr others).intact, fresh⟩ steps
  exact ⟨plain.workingText, plain.committed, _, _, intact.wellFormed.stored,
    run_serverCoreFlattenDoc srv, rfl⟩

end CollabMarkdown.Core
