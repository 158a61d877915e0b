import CollabMarkdown.Core.Invariant
import CollabMarkdown.Markdown.Editor

/-!
# The server core as a text editor

`editorStep` is one line on an editor.  A server that commits after every submission
has the text of the editor, and gives its answers.
-/

namespace CollabMarkdown.Core

open CollabMarkdown.CString
open CollabMarkdown.Command
open CollabMarkdown.Markdown
open CollabMarkdown.Transition

/-- The text after a line from a sender of some role, and the answer.  A line that is
refused leaves the text. -/
def editorStep (text : Text) (command : UserRole × Text) : Text × CommandResult :=
  match parseLine command.1 command.2 with
  | .error r => (text, r)
  | .ok edit =>
      match edit.apply text with
      | none => (text, .rejectInvalidPosition)
      | some edited => (numberLists edited, .success)

/-- The editor never speaks of versions, nor of deleted positions. -/
theorem editorStep_answer (text : Text) (command : UserRole × Text) :
    (editorStep text command).2 ≠ .rejectOutdatedVersion ∧
      (editorStep text command).2 ≠ .rejectDeletedPosition := by
  unfold editorStep
  cases parsed : parseLine command.1 command.2 with
  | error r =>
      rcases parseLine_error parsed with rfl | ⟨-, rfl⟩ <;> simp
  | ok edit =>
      simp only
      cases edit.apply text <;> simp

/-- A plan for a renumbered text without pending operations comes to a step of the
editor. -/
theorem planLine_editorStep (role : UserRole) (line : Text) {text : Text}
    (small : text.length < sizeModulus) (normalised : renumbered text = text) :
    (renumbered (spliceAll text (planLine role line text []).2), (planLine role line text []).1) =
      editorStep text (role, line) := by
  unfold planLine editorStep
  cases parsed : parseLine role line with
  | error r => simp [normalised]
  | ok edit =>
      have outcome := edit.plan_outcome small
      cases planned : edit.plan text [] with
      | error r =>
          rw [planned] at outcome
          cases applied : edit.apply text with
          | none =>
              rw [applied] at outcome
              cases outcome
              simp [normalised, planned, applied, mapMarkdownResult]
          | some edited =>
              rw [applied] at outcome
              cases outcome
      | ok ops =>
          rw [planned] at outcome
          cases applied : edit.apply text with
          | none =>
              rw [applied] at outcome
              cases outcome
          | some edited =>
              rw [applied] at outcome
              have same : spliceAll text ops = edited := Except.ok.inj outcome
              simp [same, planned, applied, numberLists, renumbered_eq]

namespace Server

variable {srv : Server}

/-- A line that is committed at once is a step of the editor. -/
theorem Coherent.editorStep_processed (coherent : srv.Coherent) (settled : srv.log = [])
    (small : srv.store.committedText.length < sizeModulus) (user : Text) (role : UserRole)
    (line : Text) :
    ((srv.processed user role line).store.committedText, (srv.plan role line).1) =
      editorStep srv.store.committedText (role, line) := by
  have none := coherent.pending_logged settled
  rw [coherent.committedText_processed, Store.workingText_of_pending_nil none, Server.plan, none]
  exact planLine_editorStep role line small coherent.wellFormed.normalised

end Server

end CollabMarkdown.Core
