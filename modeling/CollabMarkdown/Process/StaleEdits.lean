import CollabMarkdown.Process.Delivery

/-!
# Stale edits

A command line carries no version, and the server submits every line with its own
current version.  A client that has not seen the latest broadcasts is therefore
not found out: its line is executed on the text of the current version.
-/

namespace CollabMarkdown.Process

open CollabMarkdown.CString
open CollabMarkdown.Command
open CollabMarkdown.Core
open CollabMarkdown.Markdown

/-- Whatever version the client had received when it sent the line a thread holds,
the section of the thread executes the line at the current version, on a document
with nothing pending, and commits what it did.  It is never rejected for its
version. -/
theorem commands_execute_at_current_version (clients : ThreadId → ClientInfo) (addr : DocAddr)
    (others : OtherOps addr) (actions : List Action) (t : ThreadId) (line : Text)
    (holding : ((systemReached clients addr others actions).threads t).phase = .holding line) :
    let sys := systemReached clients addr others actions
    let next := systemStep clients sys (.step t)
    let executed := Id.run (commandExecute sys.server.store sys.server.core.currentVersion
      (clients t).role (some line))
    sys.server.store.pending = [] ∧
      executed.1 ≠ .rejectOutdatedVersion ∧
      (∃ payload, next.2 = .executed t line executed.1 payload) ∧
      next.1.server.store.committedText = renumbered executed.2.workingText ∧
      next.1.server.core.currentVersion = sys.server.core.currentVersion + 1 := by
  intro sys next executed
  have delivered : Delivered clients (ledgerReached clients addr others actions) sys :=
    delivered_reached clients addr others actions
  have coherent := delivered.coherent
  have current : sys.server.core.currentVersion = sys.server.store.version := coherent.version_eq
  have executed_eq : executed = ((sys.server.plan (clients t).role line).1,
      sys.server.store.enqueueAll (sys.server.plan (clients t).role line).2) := by
    simp only [executed, current]
    exact run_commandExecute_current coherent.wellFormed.sound (clients t).role line
  have next_eq : next = ((sys.execute (clients t) line).setPhase t .serving,
      .executed t line (sys.server.plan (clients t).role line).1
        (some (linePayload (clients t) sys.server line))) := by
    have phase : (sys.threads t).phase = .holding line := holding
    simp only [next, systemStep, threadStep, phase]
    exact delivered.executeSection_eq phase
  rw [executed_eq, next_eq]
  refine ⟨coherent.pending_logged delivered.settled, planLine_ne_outdated _ _ _ _, ⟨_, rfl⟩, ?_, ?_⟩
  · rw [Store.workingText_enqueueAll]
    exact coherent.committedText_processed _ _ _
  · exact coherent.currentVersion_processed _ _ _

/-! ## A line overtaken by another client -/

/-- Two writers. -/
def twoWriters : ThreadId → ClientInfo
  | 0 => ⟨10, Username.ann, .write⟩
  | t => ⟨10 + t, Username.bob, .write⟩

/-- Both join, and both receive version 1, the text `ab`. -/
def untilVersionOne : List Action :=
  [.step 0, .step 1, .send 0 (ascii "INSERT 0 ab\n"), .step 0, .step 0]

/-- Then the second client sends a line for the text `ab`, and the first one inserts
in front before that line is executed. -/
def untilOvertaken : List Action :=
  untilVersionOne ++
    [.send 1 (ascii "INSERT 1 Y\n"), .send 0 (ascii "INSERT 0 X\n"), .step 0, .step 0, .step 1]

/-- The overtaken line. -/
theorem commands_execute_at_current_version_overtaken :
    let sys := systemReached twoWriters 1 ⟨[], rfl⟩ untilOvertaken
    let next := systemStep twoWriters sys (.step 1)
    let executed := Id.run (commandExecute sys.server.store sys.server.core.currentVersion
      .write (some (ascii "INSERT 1 Y\n")))
    sys.server.store.pending = [] ∧
      executed.1 ≠ .rejectOutdatedVersion ∧
      (∃ payload, next.2 = .executed 1 (ascii "INSERT 1 Y\n") executed.1 payload) ∧
      next.1.server.store.committedText = renumbered executed.2.workingText ∧
      next.1.server.core.currentVersion = sys.server.core.currentVersion + 1 :=
  commands_execute_at_current_version twoWriters 1 ⟨[], rfl⟩ untilOvertaken 1
    (ascii "INSERT 1 Y\n") (by decide)

/-- The last version the second client has received when it sends its line is 1.
The server executes the line at version 2, with success, and changes the document:
the `Y` meant to follow the `a` follows the `X`. -/
theorem stale_edit_is_applied :
    let sent := systemReached twoWriters 1 ⟨[], rfl⟩ untilVersionOne
    let sys := systemReached twoWriters 1 ⟨[], rfl⟩ untilOvertaken
    let next := systemStep twoWriters sys (.step 1)
    (sent.streams 1).written = initialDocument .write 0 [] ++
        payloadText 1 [⟨ascii "ann", ascii "INSERT 0 ab", .success⟩] ∧
      sent.server.core.currentVersion = 1 ∧
      sent.server.store.committedText = ascii "ab" ∧
      sys.server.core.currentVersion = 2 ∧
      sys.server.store.committedText = ascii "Xab" ∧
      next.2 = .executed 1 (ascii "INSERT 1 Y\n") .success
        (some (payloadText 3 [⟨ascii "bob", ascii "INSERT 1 Y", .success⟩])) ∧
      next.1.server.store.committedText = ascii "XYab" := by
  decide

end CollabMarkdown.Process
