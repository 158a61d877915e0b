import CollabMarkdown.CString.Basic
import CollabMarkdown.Sequence.TailList

/-!
# Documents and pending operations

A document holds its committed text and version.  Pending edits live outside it,
in the process-wide list `op_lists`, in a node found by the document's address.
A `Store` pairs the document a call works on with that list, which is all the
state the engine reads and writes.

Structure sizes are those of an LP64 machine.
-/

namespace CollabMarkdown.Markdown

open CollabMarkdown.CString
open CollabMarkdown.Sequence

/-! ## Data -/

/-- The result codes of the engine.  A failed allocation returns the same code
as an invalid cursor position. -/
inductive MarkdownResult where
  | success
  | invalidCursorPos
  | deletedPosition
  | outdatedVersion
  deriving DecidableEq, Repr

/-- A pending edit, at a position of the text all earlier ones produce. -/
inductive Op where
  | insert (pos : Nat) (data : Text)
  | delete (pos len : Nat)
  deriving DecidableEq, Repr

/-- The address of a document. -/
abbrev DocAddr := Nat

/-- A node of `op_lists`. -/
structure OpList where
  doc : DocAddr
  ops : TailList Op

/-- `chunk`, without its links to others. -/
structure Chunk where
  data : Text
  length : Nat
  deriving DecidableEq, Repr

/-- The fields of a document the engine uses.  The uncommitted chunk list of the
source stays empty throughout and is left out. -/
structure Document where
  addr : DocAddr
  committedHead : Option Chunk
  currentVersion : UInt64
  deriving DecidableEq, Repr

/-- A document, and `op_lists`. -/
structure Store where
  doc : Document
  opLists : List OpList

/-- `sizeof(Op)`. -/
def sizeofOp : Nat := 40

/-- `sizeof(OpList)`. -/
def sizeofOpList : Nat := 32

/-- `sizeof(chunk)`. -/
def sizeofChunk : Nat := 32

/-- `sizeof(document)`. -/
def sizeofDocument : Nat := 56

/-! ## The table of pending operations -/

/-- `find_ops`. -/
def findOps (opLists : List OpList) (doc : DocAddr) : Option (TailList Op) :=
  (opLists.find? (·.doc == doc)).map (·.ops)

/-- Update the operations of the node found for a document. -/
def updateOps (doc : DocAddr) (update : TailList Op → TailList Op) : List OpList → List OpList
  | [] => []
  | node :: rest =>
      if node.doc == doc then
        { node with ops := update node.ops } :: rest
      else
        node :: updateOps doc update rest

/-- The table with a node for the document; a new one goes to the front. -/
def withNode (opLists : List OpList) (doc : DocAddr) : List OpList :=
  match findOps opLists doc with
  | some _ => opLists
  | none => ⟨doc, .empty⟩ :: opLists

/-- `clear_ops`. -/
def clearOps (opLists : List OpList) (doc : DocAddr) : List OpList :=
  updateOps doc (fun _ => .empty) opLists

/-- The operations pending for a document, in submission order. -/
def pendingOps (opLists : List OpList) (doc : DocAddr) : List Op :=
  match findOps opLists doc with
  | some ops => ops.head
  | none => []

theorem findOps_updateOps (doc : DocAddr) (update : TailList Op → TailList Op)
    (opLists : List OpList) :
    findOps (updateOps doc update opLists) doc = (findOps opLists doc).map update := by
  induction opLists with
  | nil => rfl
  | cons node rest ih =>
      unfold updateOps
      by_cases here : node.doc = doc
      · simp [findOps, here]
      · simpa [findOps, here] using ih

theorem findOps_withNode (opLists : List OpList) (doc : DocAddr) :
    findOps (withNode opLists doc) doc = some ((findOps opLists doc).getD .empty) := by
  unfold withNode
  cases found : findOps opLists doc with
  | some ops => simpa using found
  | none => simp [findOps]

@[simp]
theorem pendingOps_clearOps (opLists : List OpList) (doc : DocAddr) :
    pendingOps (clearOps opLists doc) doc = [] := by
  rw [pendingOps, clearOps, findOps_updateOps]
  cases findOps opLists doc <;> rfl

/-- Clearing a node without operations changes nothing. -/
theorem clearOps_of_pending_nil {opLists : List OpList} {doc : DocAddr}
    (none : pendingOps opLists doc = []) : clearOps opLists doc = opLists := by
  induction opLists with
  | nil => rfl
  | cons node rest ih =>
      unfold clearOps updateOps
      by_cases here : node.doc = doc
      · have cleared : node.ops = .empty := by
          apply TailList.ext_head
          simpa [pendingOps, findOps, here] using none
        subst here
        simp [← cleared]
      · have none : pendingOps rest doc = [] := by simpa [pendingOps, findOps, here] using none
        simpa [here, clearOps] using ih none

/-- Link an operation behind the last one of the document's node. -/
def linkOp (opLists : List OpList) (doc : DocAddr) (op : Op) : List OpList :=
  updateOps doc (·.append op) (withNode opLists doc)

@[simp]
theorem pendingOps_linkOp (opLists : List OpList) (doc : DocAddr) (op : Op) :
    pendingOps (linkOp opLists doc op) doc = pendingOps opLists doc ++ [op] := by
  rw [pendingOps, linkOp, findOps_updateOps, findOps_withNode, pendingOps]
  cases findOps opLists doc <;> simp

/-! ## Positions -/

/-- Carry a position over one pending operation: past an insertion strictly
before it, and back over a deletion before it.  A position strictly inside a
deletion is gone. -/
def transformOp (adjusted : Nat) : Op → Except MarkdownResult Nat
  | .insert pos data =>
      .ok (if pos < adjusted then adjusted + data.length else adjusted)
  | .delete delStart len =>
      let delEnd := sizeAdd delStart len
      if delStart < adjusted ∧ adjusted < delEnd then
        .error .deletedPosition
      else if delStart < adjusted then
        .ok (sizeSub adjusted (if delEnd ≤ adjusted then len else adjusted - delStart))
      else
        .ok adjusted

/-- The loop of `transform_position_after_pending_ops`. -/
def transformOps : List Op → Nat → Except MarkdownResult Nat
  | [], adjusted => .ok adjusted
  | op :: rest, adjusted => (transformOp adjusted op).bind (transformOps rest)

namespace Store

/-- The text of the committed chunk. -/
def committedText (s : Store) : Text :=
  match s.doc.committedHead with
  | some chunk => chunk.data
  | none => []

/-- The version of the document. -/
def version (s : Store) : UInt64 :=
  s.doc.currentVersion

/-- The pending operations of the document, oldest first. -/
def pending (s : Store) : List Op :=
  pendingOps s.opLists s.doc.addr

/-- The store with one operation more pending. -/
def enqueue (s : Store) (op : Op) : Store :=
  { s with opLists := linkOp s.opLists s.doc.addr op }

@[simp]
theorem pending_enqueue (s : Store) (op : Op) : (s.enqueue op).pending = s.pending ++ [op] :=
  pendingOps_linkOp _ _ _

@[simp]
theorem committedText_enqueue (s : Store) (op : Op) :
    (s.enqueue op).committedText = s.committedText :=
  rfl

@[simp]
theorem version_enqueue (s : Store) (op : Op) : (s.enqueue op).version = s.version :=
  rfl

end Store

/-- A committed position in the coordinates of the working text. -/
def transformPositionAfterPendingOps (s : Store) (originalPos : Nat) :
    Except MarkdownResult Nat :=
  match findOps s.opLists s.doc.addr with
  | none => .ok originalPos
  | some ops => transformOps ops.head originalPos

theorem transformPositionAfterPendingOps_eq (s : Store) (originalPos : Nat) :
    transformPositionAfterPendingOps s originalPos = transformOps s.pending originalPos := by
  unfold transformPositionAfterPendingOps Store.pending pendingOps
  cases findOps s.opLists s.doc.addr <;> rfl

/-! ## Materialising texts -/

/-- The clamp of `apply_single_op` on a position. -/
def clampPos (oldLen pos : Nat) : Nat :=
  if oldLen < pos then oldLen else pos

/-- The clamp of `apply_single_op` on a length, at a clamped position. -/
def clampLen (oldLen pos len : Nat) : Nat :=
  if oldLen < sizeAdd pos len then oldLen - pos else len

/-- The bytes `apply_single_op` copies into its new buffer. -/
def Op.splice (text : Text) : Op → Text
  | .insert pos data =>
      let pos := clampPos text.length pos
      text.take pos ++ data ++ text.drop pos
  | .delete pos len =>
      let pos := clampPos text.length pos
      let len := clampLen text.length pos len
      text.take pos ++ text.drop (sizeAdd pos len)

/-- The size of that buffer. -/
def Op.spliceSize (oldLen : Nat) : Op → Nat
  | .insert _ data => oldLen + data.length + 1
  | .delete pos len => sizeAdd (sizeSub oldLen (clampLen oldLen (clampPos oldLen pos) len)) 1

/-- The working text: all pending operations applied in order. -/
def spliceAll (text : Text) (ops : List Op) : Text :=
  ops.foldl Op.splice text

@[simp]
theorem spliceAll_nil (text : Text) : spliceAll text [] = text :=
  rfl

@[simp]
theorem spliceAll_cons (text : Text) (op : Op) (rest : List Op) :
    spliceAll text (op :: rest) = spliceAll (op.splice text) rest :=
  rfl

@[simp]
theorem spliceAll_append (text : Text) (first second : List Op) :
    spliceAll text (first ++ second) = spliceAll (spliceAll text first) second :=
  List.foldl_append

/-- The committed text with the pending operations applied. -/
def Store.workingText (s : Store) : Text :=
  spliceAll s.committedText s.pending

variable {m : Type → Type} [Monad m] [MonadMalloc m]

/-- `get_committed_text`. -/
def getCommittedText (s : Store) : m (Option Text) :=
  strdup (some s.committedText)

/-- `apply_single_op`. -/
def applySingleOp (text : Text) (op : Op) : m (Option Text) := do
  if ← malloc (op.spliceSize text.length) then
    return some (op.splice text)
  else
    return none

/-- The loop of `get_working_text`. -/
def applyOps (text : Text) : List Op → m (Option Text)
  | [] => return some text
  | op :: rest => do
      match ← applySingleOp text op with
      | none => return none
      | some text => applyOps text rest

/-- `get_working_text`. -/
def getWorkingText (s : Store) : m (Option Text) := do
  match ← getCommittedText s with
  | none => return none
  | some text =>
      match findOps s.opLists s.doc.addr with
      | none => return some text
      | some ops => applyOps text ops.head

/-! ## Enqueueing -/

/-- `get_or_create_ops`. -/
def getOrCreateOps (opLists : List OpList) (doc : DocAddr) : m (Option (List OpList)) := do
  match findOps opLists doc with
  | some _ => return some opLists
  | none =>
      if ← malloc sizeofOpList then
        return some (⟨doc, .empty⟩ :: opLists)
      else
        return none

/-- `enqueue_op`: the store with the operation linked in, absent on failure. -/
def enqueueOp (s : Store) (op : Op) : m (Option Store) := do
  match ← getOrCreateOps s.opLists s.doc.addr with
  | none => return none
  | some opLists => return some { s with opLists := updateOps s.doc.addr (·.append op) opLists }

/-- `enqueue_insert`. -/
def enqueueInsert (s : Store) (pos : Nat) (content : Option Text) :
    m (MarkdownResult × Store) := do
  if ← malloc sizeofOp then
    match ← strdup (some (content.getD [])) with
    | none => return (.invalidCursorPos, s)
    | some data =>
        match ← enqueueOp s (.insert pos data) with
        | none => return (.invalidCursorPos, s)
        | some s => return (.success, s)
  else
    return (.invalidCursorPos, s)

/-- `enqueue_delete`. -/
def enqueueDelete (s : Store) (pos len : Nat) : m (MarkdownResult × Store) := do
  if ← malloc sizeofOp then
    match ← enqueueOp s (.delete pos len) with
    | none => return (.invalidCursorPos, s)
    | some s => return (.success, s)
  else
    return (.invalidCursorPos, s)

/-! ## With allocations succeeding -/

@[simp]
theorem run_getCommittedText (s : Store) :
    Id.run (getCommittedText s) = some s.committedText := by
  simp [getCommittedText]

@[simp]
theorem run_applySingleOp (text : Text) (op : Op) :
    Id.run (applySingleOp text op) = some (op.splice text) := by
  simp [applySingleOp]

@[simp]
theorem run_applyOps (text : Text) (ops : List Op) :
    Id.run (applyOps text ops) = some (spliceAll text ops) := by
  induction ops generalizing text with
  | nil => rfl
  | cons op rest ih => simpa [applyOps] using ih (op.splice text)

@[simp]
theorem run_getWorkingText (s : Store) : Id.run (getWorkingText s) = some s.workingText := by
  unfold Store.workingText Store.pending pendingOps
  cases found : findOps s.opLists s.doc.addr <;> simp [getWorkingText, found]

@[simp]
theorem run_enqueueOp (s : Store) (op : Op) : Id.run (enqueueOp s op) = some (s.enqueue op) := by
  unfold Store.enqueue linkOp withNode
  cases found : findOps s.opLists s.doc.addr <;> simp [enqueueOp, getOrCreateOps, found]

@[simp]
theorem run_enqueueInsert (s : Store) (pos : Nat) (content : Option Text) :
    Id.run (enqueueInsert s pos content) =
      (.success, s.enqueue (.insert pos (content.getD []))) := by
  simp [enqueueInsert]

@[simp]
theorem run_enqueueDelete (s : Store) (pos len : Nat) :
    Id.run (enqueueDelete s pos len) = (.success, s.enqueue (.delete pos len)) := by
  simp [enqueueDelete]

end CollabMarkdown.Markdown
