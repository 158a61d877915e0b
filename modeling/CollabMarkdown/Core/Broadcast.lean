import Mathlib.Data.List.Induction
import CollabMarkdown.Core.Invariant

/-!
# Broadcasts

The payloads of a run are printed from the windows of its journal, and the
windows are a partition of the submissions: nothing is lost, repeated, reordered
or cut off, as long as each line that is printed fits an `int`.  A longer one is
counted as -1 byte, and the next line is printed over the end of the one before.
-/

namespace CollabMarkdown.Core

open CollabMarkdown.CString
open CollabMarkdown.Command
open CollabMarkdown.Markdown
open CollabMarkdown.Transition

/-- The submissions of a run, each with the result it returned. -/
def submissions (events : List CoreEvent) : List EditLogEntry :=
  events.filterMap fun
    | .submitted (some user) (some commandLine) result =>
        some ⟨user, withoutTrailingNewline commandLine, result⟩
    | _ => none

/-- What the commits of a run returned. -/
def payloads (events : List CoreEvent) : List (Option Text) :=
  events.filterMap fun
    | .committed payload => some payload
    | .submitted _ _ _ => none

/-- Windows with their versions, the number of commits that have found a submission by
then. -/
def numbered : Nat → List (List EditLogEntry) → List (UInt64 × List EditLogEntry)
  | _, [] => []
  | commits, window :: rest =>
      (UInt64.ofNat (commitsAfter commits window), window) ::
        numbered (commitsAfter commits window) rest

theorem numbered_append (commits : Nat) (first second : List (List EditLogEntry)) :
    numbered commits (first ++ second) =
      numbered commits first ++ numbered (commits + first.countP (!·.isEmpty)) second := by
  induction first generalizing commits with
  | nil => rfl
  | cons window rest ih =>
      by_cases empty : window = [] <;>
        simp [numbered, commitsAfter, ih, empty, Nat.add_assoc, Nat.add_comm]

theorem map_snd_numbered (commits : Nat) (windows : List (List EditLogEntry)) :
    (numbered commits windows).map (·.2) = windows := by
  induction windows generalizing commits with
  | nil => rfl
  | cons window rest ih => rw [numbered, List.map_cons, ih]

/-- The payloads for a list of windows. -/
def payloadTexts (commits : Nat) (windows : List (List EditLogEntry)) : List Text :=
  (numbered commits windows).map fun window => payloadText window.1 window.2

/-- The windows of a journal are a partition of the submissions, in order. -/
theorem submissions_eq (events : List CoreEvent) :
    submissions events =
      (Journal.ofEvents events).broadcast.flatten ++ (Journal.ofEvents events).window := by
  induction events using List.reverseRecOn with
  | nil => rfl
  | append_singleton events event ih =>
      rw [Journal.ofEvents_concat, submissions, List.filterMap_append, ← submissions, ih]
      match event with
      | .submitted (some user) (some commandLine) result => simp [Journal.record]
      | .submitted none _ _ => simp [Journal.record]
      | .submitted (some _) none _ => simp [Journal.record]
      | .committed _ => simp [Journal.record]

theorem payloads_concat (events : List CoreEvent) (event : CoreEvent) :
    payloads (events ++ [event]) = payloads events ++ payloads [event] :=
  List.filterMap_append

/-- One step prints the payload of its window, if it prints one. -/
theorem payloads_step {journal : Journal} {srv : Server} (recorded : Recorded journal srv)
    (step : CoreStep) :
    ((numbered 0 (journal.record (coreStep srv step).2).broadcast).map
        fun window => printPayload window.2 window.1) =
      ((numbered 0 journal.broadcast).map fun window => printPayload window.2 window.1) ++
        payloads [(coreStep srv step).2] := by
  have next := recorded.step step
  rcases step.cases with ⟨user, role, line, missing, rfl⟩ | ⟨user, role, line, rfl⟩ | rfl
  · rw [coreStep_submit_null srv role missing, Journal.record_null journal _ missing]
    simp [payloads]
  · rw [recorded.coherent.coreStep_submit]
    simp [payloads, Journal.record]
  · rw [coreStep_commit] at next ⊢
    have version := next.version_eq
    rw [Journal.effectiveCommits_committed] at version
    rw [version, recorded.log_eq]
    simp [Journal.record, numbered_append, numbered, payloads, Journal.effectiveCommits]

/-- The payloads of a run are printed from its windows. -/
theorem payloads_eq (addr : DocAddr) (others : OtherOps addr) (steps : List CoreStep) :
    payloads (events addr others steps) =
      (numbered 0 (Journal.ofEvents (events addr others steps)).broadcast).map
        fun window => printPayload window.2 window.1 := by
  apply (run_history coreStep (fun history srv =>
    Recorded (Journal.ofEvents history) srv ∧
      payloads history = (numbered 0 (Journal.ofEvents history).broadcast).map
        fun window => printPayload window.2 window.1)
    ?_ ⟨⟨Server.coherent_fresh addr others, rfl, rfl⟩, rfl⟩ steps).2
  rintro history srv step ⟨recorded, printed⟩
  rw [Journal.ofEvents_concat, payloads_concat, payloads_step recorded, printed]
  exact ⟨recorded.step step, rfl⟩

/-- The lines that a commit has to print fit an `int`. -/
def Server.Prints (srv : Server) : CoreStep → Prop
  | .submit _ _ _ => True
  | .commit => ∀ entry ∈ srv.log, entry.Printable

/-- In a run every submission is broadcast exactly once, in order, with the very result it
returned; and no payload is cut off, the length measured for it being the length
written. -/
def EachBroadcastOnce (addr : DocAddr) (others : OtherOps addr) (steps : List CoreStep) : Prop :=
  let history := events addr others steps
  let journal := Journal.ofEvents history
  payloads history = (payloadTexts 0 journal.broadcast).map some ∧
    submissions history = journal.broadcast.flatten ++ journal.window ∧
    ∀ window ∈ numbered 0 journal.broadcast,
      let size := broadcastPayloadSize window.2 window.1
      writePayload size window.2 window.1 = some ⟨payloadText window.1 window.2, size⟩ ∧
        size = (payloadText window.1 window.2).length

/-- The journal's windows are what the commits of a run found in the log. -/
theorem meets_prints_iff (addr : DocAddr) (others : OtherOps addr) (steps : List CoreStep) :
    Meets coreStep Server.Prints (Server.fresh addr others) steps ↔
      ∀ window ∈ (Journal.ofEvents (events addr others steps)).broadcast, ∀ entry ∈ window,
        entry.Printable := by
  induction steps using List.reverseRecOn with
  | nil => simp [Meets, events, Journal.ofEvents, Journal.empty]
  | append_singleton steps step ih =>
      have recorded := recorded_reached addr others steps
      rw [Meets.concat_iff, ih, events_concat, Journal.ofEvents_concat]
      rcases step.cases with ⟨user, role, line, missing, rfl⟩ | ⟨user, role, line, rfl⟩ | rfl
      · rw [coreStep_submit_null _ role missing, Journal.record_null _ _ missing]
        exact and_iff_left trivial
      · rw [(coherent_reached addr others steps).coreStep_submit]
        exact and_iff_left trivial
      · rw [coreStep_commit, Journal.record, List.forall_mem_append, List.forall_mem_singleton,
          ← recorded.log_eq]
        rfl

/-- That is so exactly if each commit of the run finds a log whose lines have at most
`INT_MAX` bytes each. -/
theorem each_submission_broadcast_once_iff (addr : DocAddr) (others : OtherOps addr)
    (steps : List CoreStep) :
    EachBroadcastOnce addr others steps ↔
      Meets coreStep Server.Prints (Server.fresh addr others) steps := by
  rw [meets_prints_iff]
  rw [EachBroadcastOnce, payloads_eq, payloadTexts, List.map_map]
  rw [← map_snd_numbered 0 (Journal.ofEvents (events addr others steps)).broadcast,
    List.forall_mem_map]
  rw [map_snd_numbered]
  constructor
  · rintro ⟨whole, -, -⟩ window member
    exact (printPayload_eq_iff window.2 window.1).mp (List.map_inj_left.mp whole window member)
  · intro printable
    refine ⟨List.map_inj_left.mpr fun window member => ?_, submissions_eq _, ?_⟩
    · exact (printPayload_eq_iff window.2 window.1).mpr (printable window member)
    · intro window member size
      have size_eq := broadcastPayloadSize_eq window.1 (printable window member)
      refine ⟨?_, size_eq⟩
      rw [writePayload_full window.1 (printable window member), ← size_eq]

/-! ## A line that is too long -/

/-- A line that is not printable costs the payload the newline in front of it. -/
theorem printPayload_of_not_printable {entry : EditLogEntry} (wide : ¬entry.Printable) :
    printPayload [entry] 1 = some (ascii "VERSION 1END\n") := by
  have result : snprintfResult (editLine entry) = -1 := snprintfResult_of_lt (Nat.not_le.mp wide)
  have size_eq : broadcastPayloadSize [entry] 1 = 13 := by
    rw [broadcastPayloadSize, List.foldl_cons, List.foldl_nil, result]
    decide
  have opened : PayloadBuffer.print 13 ⟨[], 0⟩ (versionLine 1) =
      some ⟨ascii "VERSION 1\n", 10⟩ := by decide
  have lost : PayloadBuffer.print 13 ⟨ascii "VERSION 1\n", 10⟩ (editLine entry) =
      some ⟨ascii "VERSION 1\n", 9⟩ := by
    have longer : ¬(editLine entry).length ≤ intMax := wide
    simp only [PayloadBuffer.print, if_neg longer, result]
    decide
  have closed : PayloadBuffer.print 13 ⟨ascii "VERSION 1\n", 9⟩ endLine =
      some ⟨ascii "VERSION 1END\n", 13⟩ := by decide
  rw [printPayload, size_eq, writePayload, opened, Option.bind_eq_bind, Option.bind_some,
    List.foldlM_cons, lost, Option.bind_eq_bind, Option.bind_some, List.foldlM_nil,
    Option.pure_def, Option.bind_some, closed, Option.map_some]

/-- The submission of a command that is too long is lost from the payload. -/
theorem payloads_of_wide {line : Text} (wide : intMax < line.length) :
    let steps : List CoreStep := [.submit (some (ascii "ann")) .write (some line), .commit]
    payloads (events 1 ⟨[], rfl⟩ steps) = [some (ascii "VERSION 1END\n")] ∧
      ¬EachBroadcastOnce 1 ⟨[], rfl⟩ steps := by
  intro steps
  let srv := Server.fresh 1 ⟨[], rfl⟩
  have coherent : srv.Coherent := Server.coherent_fresh 1 ⟨[], rfl⟩
  let entry : EditLogEntry :=
    ⟨ascii "ann", withoutTrailingNewline line, (srv.plan .write line).1⟩
  have lost : ¬entry.Printable := by
    have command : line.length ≤ (withoutTrailingNewline line).length + 1 := by
      unfold withoutTrailingNewline
      split
      · rw [List.length_dropLast]
        omega
      · exact Nat.le_succ _
    have user : (ascii "ann").length = 3 := by decide
    simp only [EditLogEntry.Printable, editLine, List.length_append, entry, user]
    omega
  have history : events 1 ⟨[], rfl⟩ steps =
      [.submitted (some (ascii "ann")) (some line) (srv.plan .write line).1,
        .committed (some (ascii "VERSION 1END\n"))] := by
    have submitted := coherent.submitted (coherent.plan_inRange .write line) entry
    have version := (submitted.commit_of_log_ne_nil (by simp)).2
    have printed := printPayload_of_not_printable lost
    rw [events, run_cons, run_cons, coherent.coreStep_submit, coreStep_commit, version,
      Server.log_submitted]
    exact congrArg (fun payload => [_, CoreEvent.committed payload]) printed
  rw [history]
  refine ⟨rfl, ?_⟩
  rw [each_submission_broadcast_once_iff, meets_prints_iff, history]
  intro printable
  exact lost (printable [entry] (by simp [Journal.ofEvents, Journal.record, Journal.empty, entry])
    entry (by simp))

/-- Such a command has `2 ^ 31` bytes. -/
theorem wide_command_not_broadcast :
    let steps : List CoreStep :=
      [.submit (some (ascii "ann")) .write (some (List.replicate 2147483648 120)), .commit]
    payloads (events 1 ⟨[], rfl⟩ steps) = [some (ascii "VERSION 1END\n")] ∧
      ¬EachBroadcastOnce 1 ⟨[], rfl⟩ steps :=
  payloads_of_wide (by rw [List.length_replicate]; decide)

end CollabMarkdown.Core
