import CollabMarkdown.Markdown.Faulty

/-!
# Many documents in one process

The pending operations of all documents share the list `op_lists`, which is
searched by address, and an address freed by one document may be handed out to
the next one.  `Heap.Sound` keeps one node at most for each document and none for
an address that is free.  What a document sees of the heap is then its own: a run
of calls on many documents looks to one of them like the run of its calls alone.

Each call comes with the answers that the allocator gives it.
-/

namespace CollabMarkdown.Markdown

open CollabMarkdown.CString
open CollabMarkdown.Sequence
open CollabMarkdown.Transition

/-! ## Nodes of the table -/

/-- `free_ops`: unlink the node found for a document. -/
def freeOps : List OpList → DocAddr → List OpList
  | [], _ => []
  | node :: rest, doc => if node.doc == doc then rest else node :: freeOps rest doc

/-- The documents that have a node. -/
def nodeDocs (opLists : List OpList) : List DocAddr :=
  opLists.map (·.doc)

theorem findOps_eq_none_iff {opLists : List OpList} {doc : DocAddr} :
    findOps opLists doc = none ↔ doc ∉ nodeDocs opLists := by
  simp [findOps, nodeDocs]

theorem nodeDocs_updateOps (doc : DocAddr) (update : TailList Op → TailList Op)
    (opLists : List OpList) : nodeDocs (updateOps doc update opLists) = nodeDocs opLists := by
  induction opLists with
  | nil => rfl
  | cons node rest ih =>
      unfold updateOps
      split
      · rfl
      · exact congrArg (node.doc :: ·) ih

theorem findOps_updateOps_of_ne {doc other : DocAddr} (distinct : other ≠ doc)
    (update : TailList Op → TailList Op) (opLists : List OpList) :
    findOps (updateOps doc update opLists) other = findOps opLists other := by
  induction opLists with
  | nil => rfl
  | cons node rest ih =>
      unfold updateOps
      by_cases here : node.doc = doc
      · simp [findOps, here, Ne.symm distinct]
      · by_cases there : node.doc = other
        · simp [findOps, there, distinct]
        · simpa [findOps, here, there] using ih

theorem findOps_withNode_of_ne {doc other : DocAddr} (distinct : other ≠ doc)
    (opLists : List OpList) : findOps (withNode opLists doc) other = findOps opLists other := by
  unfold withNode
  cases findOps opLists doc with
  | some ops => rfl
  | none => simp [findOps, Ne.symm distinct]

theorem nodeDocs_withNode (opLists : List OpList) (doc : DocAddr) :
    nodeDocs (withNode opLists doc) =
      if doc ∈ nodeDocs opLists then nodeDocs opLists else doc :: nodeDocs opLists := by
  unfold withNode
  cases found : findOps opLists doc with
  | some ops =>
      have held : doc ∈ nodeDocs opLists := by
        by_contra absent
        simp [findOps_eq_none_iff.mpr absent] at found
      simp only [if_pos held]
  | none =>
      simp only [if_neg (findOps_eq_none_iff.mp found)]
      rfl

theorem nodeDocs_freeOps (opLists : List OpList) (doc : DocAddr) :
    nodeDocs (freeOps opLists doc) = (nodeDocs opLists).erase doc := by
  induction opLists with
  | nil => rfl
  | cons node rest ih =>
      unfold freeOps
      by_cases here : node.doc = doc
      · simp [nodeDocs, here]
      · rw [nodeDocs] at ih
        simp [nodeDocs, here, ih]

theorem findOps_freeOps_of_ne {doc other : DocAddr} (distinct : other ≠ doc)
    (opLists : List OpList) : findOps (freeOps opLists doc) other = findOps opLists other := by
  induction opLists with
  | nil => rfl
  | cons node rest ih =>
      unfold freeOps
      by_cases here : node.doc = doc
      · simp [findOps, here, Ne.symm distinct]
      · by_cases there : node.doc = other
        · simp [findOps, there, distinct]
        · simpa [findOps, here, there] using ih

/-! ## What a call on one document leaves alone -/

/-- A call on the document of `s` has led to `s'`. -/
structure Store.Frame (s s' : Store) : Prop where
  addr_eq : s'.doc.addr = s.doc.addr
  others_eq : ∀ other, other ≠ s.doc.addr → findOps s'.opLists other = findOps s.opLists other
  nodup : (nodeDocs s.opLists).Nodup → (nodeDocs s'.opLists).Nodup
  nodes : ∀ doc ∈ nodeDocs s'.opLists, doc = s.doc.addr ∨ doc ∈ nodeDocs s.opLists

namespace Store

theorem Frame.refl (s : Store) : s.Frame s where
  addr_eq := rfl
  others_eq _ _ := rfl
  nodup distinct := distinct
  nodes _ held := .inr held

theorem Frame.trans {s s' s'' : Store} (first : s.Frame s') (second : s'.Frame s'') :
    s.Frame s'' where
  addr_eq := second.addr_eq.trans first.addr_eq
  others_eq other distinct := by
    rw [second.others_eq other (first.addr_eq ▸ distinct), first.others_eq other distinct]
  nodup distinct := second.nodup (first.nodup distinct)
  nodes doc held := by
    rcases second.nodes doc held with here | there
    · exact .inl (here.trans first.addr_eq)
    · exact first.nodes doc there

theorem frame_enqueue (s : Store) (op : Op) : s.Frame (s.enqueue op) where
  addr_eq := rfl
  others_eq other distinct := by
    rw [enqueue, linkOp, findOps_updateOps_of_ne distinct, findOps_withNode_of_ne distinct]
  nodup distinct := by
    rw [enqueue, linkOp, nodeDocs_updateOps, nodeDocs_withNode]
    split
    case isTrue => exact distinct
    case isFalse absent => exact List.nodup_cons.mpr ⟨absent, distinct⟩
  nodes doc held := by
    rw [enqueue, linkOp, nodeDocs_updateOps, nodeDocs_withNode] at held
    split at held
    case isTrue => exact .inr held
    case isFalse => exact List.mem_cons.mp held

theorem frame_enqueueAll (s : Store) (ops : List Op) : s.Frame (s.enqueueAll ops) := by
  induction ops generalizing s with
  | nil => exact Frame.refl s
  | cons op rest ih => exact (s.frame_enqueue op).trans (ih (s.enqueue op))

theorem frame_commit (s : Store) : s.Frame s.commit where
  addr_eq := rfl
  others_eq other distinct := findOps_updateOps_of_ne distinct _ _
  nodup distinct := by rwa [commit, clearOps, nodeDocs_updateOps]
  nodes doc held := by
    rw [commit, clearOps, nodeDocs_updateOps] at held
    exact .inr held

/-! ## What a call on one document depends on -/

/-- Two stores hold the same document with the same node, among other nodes that may
differ. -/
structure Alike (s t : Store) : Prop where
  doc_eq : s.doc = t.doc
  ops_eq : findOps s.opLists s.doc.addr = findOps t.opLists t.doc.addr

namespace Alike

variable {s t : Store}

theorem committedText_eq (alike : s.Alike t) : s.committedText = t.committedText := by
  rw [committedText, alike.doc_eq, committedText]

theorem version_eq (alike : s.Alike t) : s.version = t.version := by
  rw [version, alike.doc_eq, version]

theorem pending_eq (alike : s.Alike t) : s.pending = t.pending := by
  rw [pending, pendingOps, alike.ops_eq, pending, pendingOps]

theorem workingText_eq (alike : s.Alike t) : s.workingText = t.workingText := by
  rw [workingText, alike.committedText_eq, alike.pending_eq, workingText]

theorem enqueue (alike : s.Alike t) (op : Op) : (s.enqueue op).Alike (t.enqueue op) where
  doc_eq := alike.doc_eq
  ops_eq := by
    simp only [Store.enqueue, linkOp, findOps_updateOps, findOps_withNode, alike.ops_eq]

theorem enqueueAll (alike : s.Alike t) (ops : List Op) :
    (s.enqueueAll ops).Alike (t.enqueueAll ops) := by
  induction ops generalizing s t with
  | nil => exact alike
  | cons op rest ih => exact ih (alike.enqueue op)

theorem commit (alike : s.Alike t) : s.commit.Alike t.commit where
  doc_eq := by simp only [Store.commit, alike.doc_eq, alike.workingText_eq]
  ops_eq := by simp only [Store.commit, clearOps, findOps_updateOps, alike.ops_eq]

/-! The traces of a call agree too. -/

theorem workingSizes_eq (alike : s.Alike t) : s.workingSizes = t.workingSizes := by
  simp only [workingSizes, alike.committedText_eq, alike.pending_eq]

theorem textItems_eq (alike : s.Alike t) : s.textItems = t.textItems := by
  rw [textItems, alike.workingSizes_eq, textItems]

theorem opsItems_eq (alike : s.Alike t) (ops : List Op) : s.opsItems ops = t.opsItems ops := by
  induction ops generalizing s t with
  | nil => rfl
  | cons op rest ih =>
      have sizes : s.nodeSizes = t.nodeSizes := by rw [nodeSizes, alike.ops_eq, nodeSizes]
      simp only [opsItems, opItems, alike.textItems_eq, sizes, ih (alike.enqueue op)]

theorem incrementSizes_eq (alike : s.Alike t) : s.incrementSizes = t.incrementSizes := by
  simp only [incrementSizes, alike.workingSizes_eq, alike.workingText_eq, alike.doc_eq]

theorem checks_eq (alike : s.Alike t) (e : Edit) : e.checks s = e.checks t := by
  cases e with
  | link start stop url =>
      cases url <;> simp only [Edit.checks, alike.committedText_eq]
  | insert _ _ | delete _ _ | newline _ | heading _ _ | blockquote _ | orderedList _
  | unorderedList _ | horizontalRule _ => simp only [Edit.checks, alike.textItems_eq]
  | bold _ _ | italic _ _ | code _ _ => simp only [Edit.checks, alike.committedText_eq]

theorem items_eq (alike : s.Alike t) (e : Edit) : e.items s = e.items t := by
  funext ops
  cases e with
  | orderedList pos =>
      simp only [Edit.items, orderedListItems, alike.textItems_eq, alike.workingText_eq,
        alike.opsItems_eq, (alike.enqueueAll _).textItems_eq, (alike.enqueueAll _).opsItems_eq]
  | insert _ _ | delete _ _ | newline _ | heading _ _ | blockquote _ | unorderedList _
  | horizontalRule _ => simp only [Edit.items, alike.textItems_eq, alike.opsItems_eq]
  | bold _ _ | italic _ _ | code _ _ | link _ _ _ =>
      simp only [Edit.items, alike.committedText_eq, alike.opsItems_eq]

theorem trace_eq (alike : s.Alike t) (version : UInt64) (e : Edit) :
    e.trace s version = e.trace t version := by
  simp only [Edit.trace, alike.version_eq, alike.checks_eq, alike.items_eq,
    alike.committedText_eq, alike.pending_eq]

/-- A trace does the same to both stores. -/
theorem run_trace (alike : s.Alike t) (trace : CallTrace) (answers : Answers) :
    (Faulty.run (trace.run s) answers).1.1 = (Faulty.run (trace.run t) answers).1.1 ∧
      (Faulty.run (trace.run s) answers).1.2.Alike (Faulty.run (trace.run t) answers).1.2 := by
  obtain ⟨items, result⟩ := trace
  simp only [CallTrace.run]
  induction items generalizing s t answers with
  | nil => exact ⟨rfl, alike⟩
  | cons item rest ih =>
      cases item with
      | link op => exact ih (alike.enqueue op) answers
      | request size =>
          simp only [after, Faulty.run_bind]
          cases (Faulty.run (malloc size) answers).1 with
          | true => exact ih alike _
          | false => exact ⟨rfl, alike⟩

end Alike

end Store

/-! ## Calls on one document -/

/-- The calls on a live document, each with what the allocator answers. -/
inductive EngineCall where
  | edit (version : UInt64) (e : Edit) (answers : Answers)
  | transform (originalPos : Nat)
  | flatten (answers : Answers)
  | increment (answers : Answers)

/-- What a caller gets back. -/
inductive CallResult where
  | pointer (doc : Option DocAddr)
  | code (r : MarkdownResult)
  | position (r : Except MarkdownResult Nat)
  | text (text : Option Text)
  | void

/-- A call of the engine on a live document. -/
def engineCall (s : Store) : EngineCall → Store × CallResult
  | .edit version e answers =>
      let out := (Faulty.run (e.run s version) answers).1
      (out.2, .code out.1)
  | .transform originalPos => (s, .position (transformPositionAfterPendingOps s originalPos))
  | .flatten answers => (s, .text (Faulty.run (markdownFlatten s) answers).1)
  | .increment answers => ((Faulty.run (markdownIncrementVersion s) answers).1, .void)

/-- A call appends operations in range, commits, or leaves the store alone. -/
theorem engineCall_cases {s : Store} (sound : s.Sound) (call : EngineCall) :
    (∃ ops, AllInRange s.committedText (s.pending ++ ops) ∧
      (engineCall s call).1 = s.enqueueAll ops) ∨ (engineCall s call).1 = s.commit := by
  have unchanged : ∃ ops, AllInRange s.committedText (s.pending ++ ops) ∧ s = s.enqueueAll ops :=
    ⟨[], by rwa [List.append_nil], rfl⟩
  cases call with
  | edit version e answers =>
      obtain ⟨ops, ⟨later, together⟩, left⟩ := e.run_faulty sound version answers
      have inRange := e.links_inRange sound version
      rw [← together, ← List.append_assoc, allInRange_append] at inRange
      exact .inl ⟨ops, inRange.1, left⟩
  | transform originalPos => exact .inl unchanged
  | flatten answers => exact .inl unchanged
  | increment answers =>
      rw [engineCall]
      rcases markdownIncrementVersion_faulty s answers with ⟨-, done⟩ | ⟨k, -, -, refused⟩
      · exact .inr (by rw [done])
      · exact .inl (by rw [refused]; exact unchanged)

theorem frame_engineCall {s : Store} (sound : s.Sound) (call : EngineCall) :
    s.Frame (engineCall s call).1 := by
  rcases engineCall_cases sound call with ⟨ops, -, appended⟩ | committed
  · rw [appended]
    exact s.frame_enqueueAll ops
  · rw [committed]
    exact s.frame_commit

theorem sound_engineCall {s : Store} (sound : s.Sound) (call : EngineCall) :
    (engineCall s call).1.Sound := by
  rcases engineCall_cases sound call with ⟨ops, inRange, appended⟩ | committed
  · rw [appended, Store.Sound, Store.committedText_enqueueAll, Store.pending_enqueueAll]
    exact inRange
  · rw [committed]
    exact (Store.WellFormed.commit s).sound

/-- A call does the same to two stores that are alike, and returns the same. -/
theorem Store.Alike.engineCall {s t : Store} (alike : s.Alike t) (soundS : s.Sound)
    (soundT : t.Sound) (call : EngineCall) :
    (Markdown.engineCall s call).1.Alike (Markdown.engineCall t call).1 ∧
      (Markdown.engineCall s call).2 = (Markdown.engineCall t call).2 := by
  cases call with
  | edit version e answers =>
      obtain ⟨code, left⟩ := alike.run_trace (e.trace s version) answers
      simp only [Markdown.engineCall, e.run_eq_trace soundS, e.run_eq_trace soundT,
        ← alike.trace_eq]
      exact ⟨left, congrArg CallResult.code code⟩
  | transform originalPos =>
      constructor
      · exact alike
      · simp only [Markdown.engineCall, transformPositionAfterPendingOps_eq, alike.pending_eq]
  | flatten answers =>
      constructor
      · exact alike
      · simp only [Markdown.engineCall, markdownFlatten, getCommittedText, alike.committedText_eq]
  | increment answers =>
      simp only [Markdown.engineCall, markdownIncrementVersion_eq, ← alike.incrementSizes_eq,
        Faulty.run_bind, and_true]
      cases (Faulty.run (requestAll s.incrementSizes) answers).1 with
      | true => exact alike.commit
      | false => exact alike

/-! ## The heap -/

/-- The live documents of a process, by address, and `op_lists`. -/
structure Heap where
  docs : DocAddr → Option Document
  opLists : List OpList

/-- What a call does with the document at its address. -/
inductive CallKind where
  | init (answers : Answers)
  | free
  | call (call : EngineCall)

/-- One call of a process, on the document at an address.  The address that a new
document gets is the choice of the allocator. -/
structure HeapCall where
  addr : DocAddr
  kind : CallKind

namespace Heap

/-- A process before its first call. -/
def empty : Heap where
  docs _ := none
  opLists := []

/-- The heap with another entry for an address, and another table. -/
def set (h : Heap) (addr : DocAddr) (doc : Option Document) (opLists : List OpList) : Heap where
  docs := Function.update h.docs addr doc
  opLists := opLists

@[simp]
theorem opLists_set (h : Heap) (addr : DocAddr) (doc : Option Document) (opLists : List OpList) :
    (h.set addr doc opLists).opLists = opLists :=
  rfl

@[simp]
theorem docs_set_self (h : Heap) (addr : DocAddr) (doc : Option Document)
    (opLists : List OpList) : (h.set addr doc opLists).docs addr = doc :=
  Function.update_self _ _ _

theorem docs_set_of_ne (h : Heap) {addr other : DocAddr} (distinct : other ≠ addr)
    (doc : Option Document) (opLists : List OpList) :
    (h.set addr doc opLists).docs other = h.docs other :=
  Function.update_of_ne distinct _ _

end Heap

/-- One call and its result.  There is no call on a document that is not live, and
the allocator hands out no address in use: such inputs have no effect. -/
def heapStep (h : Heap) (c : HeapCall) : Heap × Option CallResult :=
  match h.docs c.addr, c.kind with
  | none, .init answers =>
      match (Faulty.run (markdownInit c.addr) answers).1 with
      | none => (h, some (.pointer none))
      | some doc => (h.set c.addr (some doc) h.opLists, some (.pointer (some c.addr)))
  | some _, .free => (h.set c.addr none (freeOps h.opLists c.addr), some .void)
  | some doc, .call call =>
      let out := engineCall ⟨doc, h.opLists⟩ call
      (h.set c.addr (some out.1.doc) out.1.opLists, some out.2)
  | _, _ => (h, none)

/-- What `markdown_init` returns, if anything, is an empty document. -/
theorem markdownInit_faulty (addr : DocAddr) (answers : Answers) :
    (Faulty.run (markdownInit addr) answers).1 = none ∨
      (Faulty.run (markdownInit addr) answers).1 = some (emptyDocument addr) := by
  have eq : (markdownInit addr : Faulty (Option Document)) = do
      if ← requestAll [sizeofDocument, sizeofChunk, 1] then
        return some (emptyDocument addr)
      else
        return none := by
    simp only [markdownInit, requestAll, bind_assoc, strdup]
    apply bind_bool_congr
    · simp only [if_true, bind_assoc]
      apply bind_bool_congr
      · simp only [if_true, bind_assoc]
        apply bind_bool_congr <;> simp [emptyDocument]
      · simp
    · simp
  rw [eq, Faulty.run_bind]
  cases (Faulty.run (requestAll [sizeofDocument, sizeofChunk, 1]) answers).1 with
  | true => exact .inr rfl
  | false => exact .inl rfl

/-- A step changes nothing, creates a document, frees one, or is a call on a live
one. -/
theorem heapStep_cases (h : Heap) (c : HeapCall) :
    (heapStep h c).1 = h ∨
    (h.docs c.addr = none ∧
      (heapStep h c).1 = h.set c.addr (some (emptyDocument c.addr)) h.opLists) ∨
    (heapStep h c).1 = h.set c.addr none (freeOps h.opLists c.addr) ∨
    ∃ doc call, h.docs c.addr = some doc ∧
      (heapStep h c).1 = h.set c.addr (some (engineCall ⟨doc, h.opLists⟩ call).1.doc)
        (engineCall ⟨doc, h.opLists⟩ call).1.opLists := by
  obtain ⟨addr, kind⟩ := c
  unfold heapStep
  cases found : h.docs addr with
  | none =>
      cases kind with
      | init answers =>
          rcases markdownInit_faulty addr answers with failed | made
          · simp only [failed, true_or]
          · exact .inr (.inl ⟨rfl, by simp only [made]⟩)
      | free | call _ => exact .inl rfl
  | some doc =>
      cases kind with
      | init answers => exact .inl rfl
      | free => exact .inr (.inr (.inl rfl))
      | call call => exact .inr (.inr (.inr ⟨doc, call, rfl, rfl⟩))

/-! ## The table and the live documents -/

/-- Every live document is well addressed with its operations in range; the table
has one node at most for each, and none for an address that is free. -/
structure Heap.Sound (h : Heap) : Prop where
  addr_eq : ∀ addr doc, h.docs addr = some doc → doc.addr = addr
  sound : ∀ addr doc, h.docs addr = some doc → Store.Sound ⟨doc, h.opLists⟩
  nodup : (nodeDocs h.opLists).Nodup
  live : ∀ addr ∈ nodeDocs h.opLists, h.docs addr ≠ none

theorem Heap.sound_empty : Heap.empty.Sound where
  addr_eq _ _ found := by simp [Heap.empty] at found
  sound _ _ found := by simp [Heap.empty] at found
  nodup := List.nodup_nil
  live _ held := absurd held List.not_mem_nil

theorem Store.Alike.sound {s t : Store} (alike : s.Alike t) (sound : s.Sound) : t.Sound := by
  rwa [Store.Sound, ← alike.committedText_eq, ← alike.pending_eq]

namespace Heap.Sound

variable {h : Heap}

theorem findOps_eq_none (sound : h.Sound) {addr : DocAddr} (unused : h.docs addr = none) :
    findOps h.opLists addr = none :=
  findOps_eq_none_iff.mpr fun held => sound.live addr held unused

/-- A change at one address that leaves the nodes of the other documents alone. -/
theorem set (sound : h.Sound) {addr : DocAddr} {doc : Option Document} {opLists : List OpList}
    (own : ∀ d, doc = some d → d.addr = addr ∧ Store.Sound ⟨d, opLists⟩)
    (others : ∀ other, other ≠ addr → findOps opLists other = findOps h.opLists other)
    (nodup : (nodeDocs opLists).Nodup) (ownNode : addr ∈ nodeDocs opLists → doc ≠ none) :
    (h.set addr doc opLists).Sound where
  addr_eq other d found := by
    by_cases here : other = addr
    · subst here
      exact (own d (by simpa using found)).1
    · rw [docs_set_of_ne h here] at found
      exact sound.addr_eq other d found
  sound other d found := by
    by_cases here : other = addr
    · subst here
      exact (own d (by simpa using found)).2
    · rw [docs_set_of_ne h here] at found
      have same := others other here
      rw [← sound.addr_eq other d found] at same
      have alike : Store.Alike ⟨d, h.opLists⟩ ⟨d, opLists⟩ := ⟨rfl, same.symm⟩
      exact alike.sound (sound.sound other d found)
  nodup := nodup
  live other held := by
    by_cases here : other = addr
    · subst here
      rw [docs_set_self]
      exact ownNode held
    · rw [docs_set_of_ne h here]
      apply sound.live other
      by_contra absent
      rw [← findOps_eq_none_iff, ← others other here] at absent
      exact findOps_eq_none_iff.mp absent held

theorem step (sound : h.Sound) (c : HeapCall) : (heapStep h c).1.Sound := by
  rcases heapStep_cases h c with same | ⟨unused, created⟩ | freed | ⟨doc, call, found, called⟩
  · rwa [same]
  · rw [created]
    apply sound.set
    · rintro d ⟨⟩
      constructor
      · exact rfl
      · have none : Store.pending ⟨emptyDocument c.addr, h.opLists⟩ = [] := by
          simp only [Store.pending, pendingOps, emptyDocument, sound.findOps_eq_none unused]
        rw [Store.Sound, none]
        exact allInRange_nil _
    · exact fun _ _ => rfl
    · exact sound.nodup
    · exact fun _ => Option.some_ne_none _
  · rw [freed]
    apply sound.set
    · rintro d ⟨⟩
    · exact fun other distinct => findOps_freeOps_of_ne distinct _
    · rw [nodeDocs_freeOps]
      exact sound.nodup.erase c.addr
    · rw [nodeDocs_freeOps, sound.nodup.mem_erase_iff]
      exact fun held => absurd rfl held.1
  · rw [called]
    have own := sound.sound c.addr doc found
    have frame := frame_engineCall own call
    have docAddr := sound.addr_eq c.addr doc found
    apply sound.set
    · rintro d ⟨⟩
      exact ⟨frame.addr_eq.trans docAddr, sound_engineCall own call⟩
    · exact fun other distinct => frame.others_eq other (docAddr ▸ distinct)
    · exact frame.nodup sound.nodup
    · exact fun _ => Option.some_ne_none _

end Heap.Sound

/-! ## One document among others -/

namespace Heap

/-- Two heaps hold the same document at an address, with the same node. -/
structure SameAt (addr : DocAddr) (full solo : Heap) : Prop where
  fullSound : full.Sound
  soloSound : solo.Sound
  docs_eq : full.docs addr = solo.docs addr
  ops_eq : findOps full.opLists addr = findOps solo.opLists addr

namespace SameAt

variable {addr : DocAddr} {full solo : Heap}

/-- A call on another document. -/
theorem other (same : SameAt addr full solo) {c : HeapCall} (distinct : c.addr ≠ addr) :
    SameAt addr (heapStep full c).1 solo := by
  have apart : addr ≠ c.addr := Ne.symm distinct
  refine ⟨same.fullSound.step c, same.soloSound, ?_, ?_⟩
  · rw [← same.docs_eq]
    rcases heapStep_cases full c with keeps | ⟨-, created⟩ | freed | ⟨doc, call, -, called⟩
    · rw [keeps]
    · rw [created, docs_set_of_ne full apart]
    · rw [freed, docs_set_of_ne full apart]
    · rw [called, docs_set_of_ne full apart]
  · rw [← same.ops_eq]
    rcases heapStep_cases full c with keeps | ⟨-, created⟩ | freed | ⟨doc, call, found, called⟩
    · rw [keeps]
    · rw [created, opLists_set]
    · rw [freed, opLists_set, findOps_freeOps_of_ne apart]
    · have frame := frame_engineCall (same.fullSound.sound c.addr doc found) call
      rw [called, opLists_set]
      exact frame.others_eq addr (same.fullSound.addr_eq c.addr doc found ▸ apart)

theorem findOps_free (same : SameAt addr full solo) :
    findOps (freeOps full.opLists addr) addr = findOps (freeOps solo.opLists addr) addr := by
  have absent {h : Heap} (sound : h.Sound) : findOps (freeOps h.opLists addr) addr = none := by
    rw [findOps_eq_none_iff, nodeDocs_freeOps, sound.nodup.mem_erase_iff]
    exact fun held => held.1 rfl
  rw [absent same.fullSound, absent same.soloSound]

/-- The same call on the document in both. -/
theorem own (same : SameAt addr full solo) (kind : CallKind) :
    SameAt addr (heapStep full ⟨addr, kind⟩).1 (heapStep solo ⟨addr, kind⟩).1 ∧
      (heapStep full ⟨addr, kind⟩).2 = (heapStep solo ⟨addr, kind⟩).2 := by
  suffices parts :
      ((heapStep full ⟨addr, kind⟩).1.docs addr = (heapStep solo ⟨addr, kind⟩).1.docs addr ∧
        findOps (heapStep full ⟨addr, kind⟩).1.opLists addr =
          findOps (heapStep solo ⟨addr, kind⟩).1.opLists addr) ∧
      (heapStep full ⟨addr, kind⟩).2 = (heapStep solo ⟨addr, kind⟩).2 from
    ⟨⟨same.fullSound.step _, same.soloSound.step _, parts.1.1, parts.1.2⟩, parts.2⟩
  have docs_eq := same.docs_eq
  unfold heapStep
  cases held : solo.docs addr with
  | none =>
      rw [held] at docs_eq
      cases kind with
      | init answers =>
          cases made : (Faulty.run (markdownInit addr) answers).1 with
          | none => simp [docs_eq, held, same.ops_eq, made]
          | some doc => simp [docs_eq, same.ops_eq, made]
      | free | call _ => simp [docs_eq, held, same.ops_eq]
  | some doc =>
      rw [held] at docs_eq
      cases kind with
      | init answers => simp [docs_eq, held, same.ops_eq]
      | free => simp [docs_eq, same.findOps_free]
      | call call =>
          have docAddr := same.soloSound.addr_eq addr doc held
          have alike : Store.Alike ⟨doc, full.opLists⟩ ⟨doc, solo.opLists⟩ :=
            ⟨rfl, by rw [docAddr, same.ops_eq]⟩
          have soundFull := same.fullSound.sound addr doc docs_eq
          have soundSolo := same.soloSound.sound addr doc held
          obtain ⟨next, result⟩ := alike.engineCall soundFull soundSolo call
          have nextAddr : (engineCall ⟨doc, full.opLists⟩ call).1.doc.addr = addr :=
            (frame_engineCall soundFull call).addr_eq.trans docAddr
          have ops_eq := next.ops_eq
          rw [← next.doc_eq, nextAddr] at ops_eq
          simp [docs_eq, next.doc_eq, ops_eq, result]

end SameAt

/-- What a caller can learn of the document at an address: its committed text, its
pending operations and its version. -/
def view (h : Heap) (addr : DocAddr) : Option (Text × List Op × UInt64) :=
  (h.docs addr).map fun doc =>
    let s : Store := ⟨doc, h.opLists⟩
    (s.committedText, s.pending, s.version)

theorem SameAt.view_eq {addr : DocAddr} {full solo : Heap} (same : SameAt addr full solo) :
    full.view addr = solo.view addr := by
  rw [view, view, same.docs_eq]
  cases held : solo.docs addr with
  | none => rfl
  | some doc =>
      have alike : Store.Alike ⟨doc, full.opLists⟩ ⟨doc, solo.opLists⟩ :=
        ⟨rfl, by rw [same.soloSound.addr_eq addr doc held, same.ops_eq]⟩
      simp only [Option.map_some, alike.committedText_eq, alike.pending_eq, alike.version_eq]

end Heap

/-! ## Runs -/

/-- The heap that a run of calls leads to. -/
def heapAfter (calls : List HeapCall) : Heap :=
  (run heapStep Heap.empty calls).1

theorem sound_heapAfter (calls : List HeapCall) : (heapAfter calls).Sound :=
  run_invariant heapStep Heap.Sound (fun _ c sound => sound.step c) Heap.sound_empty calls

/-- The result of a call on the document at an address. -/
def resultAt (addr : DocAddr) (c : HeapCall) (result : Option CallResult) : Option CallResult :=
  if c.addr = addr then result else none

/-- The results of the calls on the document at an address, in order. -/
def resultsAt (addr : DocAddr) (calls : List HeapCall) (results : List (Option CallResult)) :
    List CallResult :=
  (List.zipWith (resultAt addr) calls results).reduceOption

/-- Documents do not interfere.  At any moment the table holds one node at most for
each document and none for a freed one.  From the moment an address is free on,
whatever other documents live and whatever happened at that address before, the
document next created there gets the results and has the contents it would have in
a process whose calls are its own alone. -/
theorem documents_do_not_interfere (before calls : List HeapCall) (addr : DocAddr)
    (unused : (heapAfter before).docs addr = none) :
    let full := run heapStep (heapAfter before) calls
    let own := calls.filter (·.addr = addr)
    let solo := run heapStep Heap.empty own
    (nodeDocs full.1.opLists).Nodup ∧
      (∀ doc ∈ nodeDocs full.1.opLists, full.1.docs doc ≠ none) ∧
      full.1.view addr = solo.1.view addr ∧
      resultsAt addr calls full.2 = resultsAt addr own solo.2 := by
  have sound := sound_heapAfter before
  have initial : Heap.SameAt addr (heapAfter before) Heap.empty :=
    ⟨sound, Heap.sound_empty, unused, sound.findOps_eq_none unused⟩
  obtain ⟨same, results⟩ := run_purge heapStep (fun c : HeapCall => decide (c.addr = addr))
    (Heap.SameAt addr) (resultAt addr)
    (by
      rintro full solo ⟨addr', kind⟩ same own
      obtain rfl : addr' = addr := by simpa using own
      obtain ⟨next, result⟩ := same.own kind
      exact ⟨next, congrArg _ result⟩)
    (by
      intro full solo c same other
      have distinct : c.addr ≠ addr := by simpa using other
      exact ⟨same.other distinct, if_neg distinct⟩)
    initial calls
  exact ⟨same.fullSound.nodup, same.fullSound.live, same.view_eq, results⟩

/-- A document with pending edits is freed, and its address goes to a new one while
another document is edited. -/
theorem documents_do_not_interfere_reused :
    let before : List HeapCall :=
      [⟨1, .init []⟩, ⟨1, .call (.edit 0 (.insert 0 (some (ascii "old"))) [])⟩, ⟨1, .free⟩]
    let calls : List HeapCall :=
      [⟨1, .init []⟩, ⟨2, .init []⟩, ⟨2, .call (.edit 0 (.insert 0 (some (ascii "b"))) [])⟩,
        ⟨1, .call (.edit 0 (.insert 0 (some (ascii "a"))) [])⟩, ⟨1, .call (.increment [])⟩]
    (run heapStep (heapAfter before) calls).1.view 1 =
      (run heapStep Heap.empty (calls.filter (·.addr = 1))).1.view 1 := by
  intro before calls
  exact (documents_do_not_interfere before calls 1 rfl).2.2.1

end CollabMarkdown.Markdown
