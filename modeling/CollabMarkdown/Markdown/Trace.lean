import CollabMarkdown.CString.Requests
import CollabMarkdown.Markdown.Plan

/-!
# What an edit call does to memory

An edit call asks for memory and links operations, in an order that its store and
its arguments determine.  A request that fails ends the call with a code of its
own and leaves linked what was linked before.  `Edit.trace` lists the requests and
the links, and `Edit.run_eq_trace` shows that the calls of the engine follow their
traces, in a process whose allocations may fail at any point.  When none fails, a
call does what it plans (`Edit.run_eq`).
-/

namespace CollabMarkdown.Markdown

open CollabMarkdown.CString

/-! ## Traces -/

/-- A request to the allocator, or an operation added to the pending ones. -/
inductive TraceItem where
  | request (size : Nat)
  | link (op : Op)
  deriving DecidableEq, Repr

/-- Requests alone. -/
def requests (sizes : List Nat) : List TraceItem :=
  sizes.map .request

/-- The operations that a trace links. -/
def linksOf (items : List TraceItem) : List Op :=
  items.filterMap fun
    | .request _ => none
    | .link op => some op

@[simp]
theorem linksOf_link (op : Op) (rest : List TraceItem) :
    linksOf (.link op :: rest) = op :: linksOf rest :=
  rfl

@[simp]
theorem linksOf_request (size : Nat) (rest : List TraceItem) :
    linksOf (.request size :: rest) = linksOf rest :=
  rfl

/-- What a call does when every request succeeds, and the code it returns then. -/
structure CallTrace where
  items : List TraceItem
  result : MarkdownResult
  deriving DecidableEq, Repr

/-- The trace of a call that is rejected after some checks, or follows its plan. -/
def CallTrace.ofPlan (checks : List TraceItem) (items : List Op → List TraceItem) :
    Except MarkdownResult (List Op) → CallTrace
  | .error r => ⟨checks, r⟩
  | .ok ops => ⟨items ops, .success⟩

variable {m : Type → Type} [Monad m] [MonadMalloc m]

/-- Follow a trace and go on.  A failed request ends the call. -/
def after (next : Store → m (MarkdownResult × Store)) :
    List TraceItem → Store → m (MarkdownResult × Store)
  | [], s => next s
  | .request size :: rest, s => do
      if ← malloc size then
        after next rest s
      else
        return (.invalidCursorPos, s)
  | .link op :: rest, s => after next rest (s.enqueue op)

/-- A call that follows its trace and returns. -/
def CallTrace.run (trace : CallTrace) (s : Store) : m (MarkdownResult × Store) :=
  after (fun s => pure (trace.result, s)) trace.items s

theorem after_append (next : Store → m (MarkdownResult × Store)) (first second : List TraceItem)
    (s : Store) : after next (first ++ second) s = after (after next second) first s := by
  induction first generalizing s with
  | nil => rfl
  | cons item rest ih =>
      cases item with
      | request size => simp only [List.cons_append, after, ih]
      | link op => exact ih _

/-- Only the store that a trace leads to matters to what follows. -/
theorem after_congr {next next' : Store → m (MarkdownResult × Store)} {items : List TraceItem}
    {s : Store}
    (same : next (s.enqueueAll (linksOf items)) = next' (s.enqueueAll (linksOf items))) :
    after next items s = after next' items s := by
  induction items generalizing s with
  | nil => exact same
  | cons item rest ih =>
      cases item with
      | request size => simp only [after, ih same]
      | link op => exact ih same

variable [LawfulMonad m]

/-- What follows a call that returns at once when it fails, follows its trace. -/
theorem after_bind (next : Store → m (MarkdownResult × Store))
    {later : MarkdownResult × Store → m (MarkdownResult × Store)}
    (stops : ∀ s, later (.invalidCursorPos, s) = pure (.invalidCursorPos, s))
    (items : List TraceItem) (s : Store) :
    after next items s >>= later = after (fun s => next s >>= later) items s := by
  induction items generalizing s with
  | nil => rfl
  | cons item rest ih =>
      cases item with
      | request size =>
          simp only [after, bind_assoc]
          apply bind_bool_congr
          · exact ih s
          · simpa using stops s
      | link op => exact ih _

theorem after_requests (next : Store → m (MarkdownResult × Store)) (sizes : List Nat) (s : Store) :
    after next (requests sizes) s = do
      if ← requestAll sizes then
        next s
      else
        return (.invalidCursorPos, s) := by
  induction sizes with
  | nil => simp [requests, after]
  | cons size rest ih =>
      simp only [requests, List.map_cons, after, requestAll, bind_assoc]
      apply bind_bool_congr
      · exact ih
      · simp

/-! ## The pieces of a call -/

/-- The buffers that the splices of pending operations ask for. -/
def spliceSizes : Text → List Op → List Nat
  | _, [] => []
  | text, op :: rest => op.spliceSize text.length :: spliceSizes (op.splice text) rest

namespace Store

/-- The buffers asked for to build the working text. -/
def workingSizes (s : Store) : List Nat :=
  (s.committedText.length + 1) :: spliceSizes s.committedText s.pending

/-- The node asked for when the document has none in `op_lists`. -/
def nodeSizes (s : Store) : List Nat :=
  match findOps s.opLists s.doc.addr with
  | some _ => []
  | none => [sizeofOpList]

/-- The working text is built. -/
def textItems (s : Store) : List TraceItem :=
  requests s.workingSizes

end Store

/-- What an operation takes up, with its data. -/
def Op.sizes : Op → List Nat
  | .insert _ data => [sizeofOp, data.length + 1]
  | .delete _ _ => [sizeofOp]

namespace Store

/-- Check the version, build the working text and link one operation. -/
def opItems (s : Store) (op : Op) : List TraceItem :=
  s.textItems ++ requests (op.sizes ++ s.nodeSizes) ++ [.link op]

/-- The same for several operations in turn. -/
def opsItems (s : Store) : List Op → List TraceItem
  | [] => []
  | op :: rest => s.opItems op ++ (s.enqueue op).opsItems rest

end Store

theorem applyOps_eq (text : Text) (ops : List Op) :
    (applyOps text ops : m (Option Text)) = do
      if ← requestAll (spliceSizes text ops) then
        return some (spliceAll text ops)
      else
        return none := by
  induction ops generalizing text with
  | nil => simp [applyOps, spliceSizes]
  | cons op rest ih =>
      simp only [applyOps, applySingleOp, spliceSizes, requestAll, bind_assoc]
      apply bind_bool_congr
      · simpa using ih (op.splice text)
      · simp

theorem getWorkingText_eq (s : Store) :
    (getWorkingText s : m (Option Text)) = do
      if ← requestAll s.workingSizes then
        return some s.workingText
      else
        return none := by
  simp only [getWorkingText, getCommittedText, strdup, Store.workingSizes, requestAll, bind_assoc]
  apply bind_bool_congr
  · cases found : findOps s.opLists s.doc.addr with
    | none => simp [found, Store.workingText, Store.pending, pendingOps, spliceSizes]
    | some ops =>
        simp [found, Store.workingText, Store.pending, pendingOps, applyOps_eq]
  · simp

/-- A call that needs the working text asks for its buffers. -/
theorem validate_bind (s : Store)
    {later : Except MarkdownResult Text → m (MarkdownResult × Store)}
    (stops : later (.error .invalidCursorPos) = pure (.invalidCursorPos, s)) :
    validateVersionAndGetLen s s.version >>= later =
      after (fun _ => later (.ok s.workingText)) s.textItems s := by
  simp only [validateVersionAndGetLen, getWorkingText_eq, ne_eq, not_true_eq_false, if_false,
    Store.textItems, after_requests, bind_assoc]
  apply bind_bool_congr
  · simp
  · simpa using stops

theorem enqueueOp_eq (s : Store) (op : Op) :
    (enqueueOp s op : m (Option Store)) = do
      if ← requestAll s.nodeSizes then
        return some (s.enqueue op)
      else
        return none := by
  unfold enqueueOp getOrCreateOps Store.nodeSizes Store.enqueue linkOp withNode
  cases findOps s.opLists s.doc.addr with
  | some ops => simp
  | none =>
      simp only [requestAll_singleton, bind_assoc]
      apply bind_bool_congr <;> simp

theorem enqueueInsert_eq (s : Store) (pos : Nat) (content : Option Text) :
    (enqueueInsert s pos content : m (MarkdownResult × Store)) =
      after (fun s => pure (.success, s))
        (requests ((Op.insert pos (content.getD [])).sizes ++ s.nodeSizes) ++
          [.link (.insert pos (content.getD []))]) s := by
  rw [after_append, after_requests, enqueueInsert]
  simp only [Op.sizes, List.cons_append, List.nil_append, requestAll, bind_assoc]
  apply bind_bool_congr
  · simp only [strdup, if_true, bind_assoc]
    apply bind_bool_congr
    · simp only [if_true, pure_bind, enqueueOp_eq, bind_assoc]
      apply bind_bool_congr <;> simp [after]
    · simp
  · simp

theorem enqueueDelete_eq (s : Store) (pos len : Nat) :
    (enqueueDelete s pos len : m (MarkdownResult × Store)) =
      after (fun s => pure (.success, s))
        (requests ((Op.delete pos len).sizes ++ s.nodeSizes) ++ [.link (.delete pos len)]) s := by
  rw [after_append, after_requests, enqueueDelete]
  simp only [Op.sizes, List.cons_append, List.nil_append, requestAll, bind_assoc]
  apply bind_bool_congr
  · simp only [if_true, enqueueOp_eq, bind_assoc]
    apply bind_bool_congr <;> simp [after]
  · simp

/-! ## The calls follow their traces -/

@[simp]
theorem linksOf_requests (sizes : List Nat) : linksOf (requests sizes) = [] := by
  simp [linksOf, requests]

theorem linksOf_append (first second : List TraceItem) :
    linksOf (first ++ second) = linksOf first ++ linksOf second :=
  List.filterMap_append

namespace Store

@[simp]
theorem linksOf_textItems (s : Store) : linksOf s.textItems = [] :=
  linksOf_requests _

@[simp]
theorem linksOf_opsItems (s : Store) (ops : List Op) : linksOf (s.opsItems ops) = ops := by
  induction ops generalizing s with
  | nil => rfl
  | cons op rest ih =>
      simp only [opsItems, opItems, linksOf_append, linksOf_textItems, linksOf_requests, ih]
      rfl

theorem opsItems_append (s : Store) (first second : List Op) :
    s.opsItems (first ++ second) = s.opsItems first ++ (s.enqueueAll first).opsItems second := by
  induction first generalizing s with
  | nil => rfl
  | cons op rest ih =>
      simp only [List.cons_append, opsItems, ih, List.append_assoc, enqueueAll_cons]

/-- A call at a cursor position, which must lie in the text. -/
def traceAt (s : Store) (pos : Nat) (items : List TraceItem) : CallTrace :=
  if s.workingText.length < pos then ⟨s.textItems, .invalidCursorPos⟩ else ⟨items, .success⟩

theorem traceAt_of_le {s : Store} {pos : Nat} (inside : pos ≤ s.workingText.length)
    (items : List TraceItem) : s.traceAt pos items = ⟨items, .success⟩ :=
  if_neg (Nat.not_lt.mpr inside)

end Store

/-- What follows a successful call, and a failed one ends. -/
def proceed (next : Store → m (MarkdownResult × Store)) (out : MarkdownResult × Store) :
    m (MarkdownResult × Store) :=
  if out.1 ≠ .success then pure out else next out.2

theorem run_proceed (items : List TraceItem) (s : Store)
    (next : Store → m (MarkdownResult × Store)) :
    (CallTrace.run ⟨items, .success⟩ s >>= proceed next) = after next items s := by
  rw [CallTrace.run, after_bind _ fun s => by simp [proceed]]
  simp [proceed]

omit [LawfulMonad m] in
/-- A call that only reads the text returns the store it was given. -/
theorem run_textItems (s : Store) (r : MarkdownResult) :
    after (fun _ => (pure (r, s) : m (MarkdownResult × Store))) s.textItems s =
      CallTrace.run ⟨s.textItems, r⟩ s := by
  apply after_congr
  rw [Store.linksOf_textItems, Store.enqueueAll_nil]

theorem markdownInsert_eq (s : Store) (pos : Nat) (content : Option Text) :
    (markdownInsert s s.version pos content : m (MarkdownResult × Store)) =
      (s.traceAt pos (s.opsItems [.insert pos (content.getD [])])).run s := by
  rw [markdownInsert, validate_bind s rfl, Store.traceAt]
  by_cases outside : s.workingText.length < pos
  · simp only [if_pos outside, run_textItems]
  · simp only [if_neg outside, CallTrace.run, Store.opsItems, Store.opItems, List.append_nil,
      List.append_assoc]
    rw [after_append]
    apply after_congr
    rw [Store.linksOf_textItems]
    exact enqueueInsert_eq s pos content

theorem markdownDelete_eq (s : Store) (pos len : Nat) :
    (markdownDelete s s.version pos len : m (MarkdownResult × Store)) =
      (s.traceAt pos (if len = 0 then s.textItems else
        s.opsItems [.delete pos (if s.workingText.length < sizeAdd pos len
          then s.workingText.length - pos else len)])).run s := by
  rw [markdownDelete, validate_bind s rfl, Store.traceAt]
  by_cases outside : s.workingText.length < pos
  · simp only [if_pos outside, run_textItems]
  · by_cases none : len = 0
    · simp only [if_neg outside, if_pos none, run_textItems]
    · simp only [if_neg outside, if_neg none, CallTrace.run, Store.opsItems, Store.opItems,
        List.append_nil, List.append_assoc]
      rw [after_append]
      apply after_congr
      rw [Store.linksOf_textItems]
      exact enqueueDelete_eq s pos _

/-- Dropping the space at the cursor. -/
theorem markdownDelete_space_eq {s : Store} {pos : Nat} (inside : pos < s.workingText.length) :
    (markdownDelete s s.version pos 1 : m (MarkdownResult × Store)) =
      CallTrace.run ⟨s.opsItems [.delete pos 1], .success⟩ s := by
  have unclamped := Nat.not_lt.mpr (delete_one_inRange inside).2
  rw [markdownDelete_eq, s.traceAt_of_le (Nat.le_of_lt inside), if_neg Nat.one_ne_zero,
    if_neg unclamped]

theorem markdownNewline_eq (s : Store) (pos : Nat) :
    (markdownNewline s s.version pos : m (MarkdownResult × Store)) =
      (s.traceAt pos (s.textItems ++
        s.opsItems (dropSpaceOps s.workingText pos ++ [.insert pos [newline]]))).run s := by
  rw [markdownNewline, validate_bind s rfl, Store.traceAt]
  by_cases outside : s.workingText.length < pos
  · simp only [if_pos outside, run_textItems]
  · have inside := Nat.le_of_not_lt outside
    simp only [if_neg outside, CallTrace.run]
    rw [after_append]
    apply after_congr
    rw [Store.linksOf_textItems, Store.enqueueAll_nil]
    by_cases atSpace : pos < s.workingText.length ∧ byteAt s.workingText pos = space
    · rw [if_pos atSpace, dropSpaceOps, if_pos atSpace, markdownDelete_space_eq atSpace.1,
        s.opsItems_append, after_append]
      refine (run_proceed _ s fun s' => markdownInsert s' s.version pos (some [newline])).trans ?_
      apply after_congr
      rw [Store.linksOf_opsItems, ← s.version_enqueueAll [.delete pos 1], markdownInsert_eq,
        Store.traceAt_of_le]
      · rfl
      · rw [Store.workingText_enqueueAll]
        exact le_length_splice_space atSpace.1
    · rw [if_neg atSpace, dropSpaceOps, if_neg atSpace, markdownInsert_eq,
        s.traceAt_of_le inside]
      rfl

/-- The line break in front of a marker, if one is needed. -/
theorem insertBlockMarker_eq (s : Store) (pos : Nat) (marker : Text) :
    (insertBlockMarker s s.version pos marker : m (MarkdownResult × Store)) =
      (s.traceAt pos (s.textItems ++ s.opsItems (blockOps s.workingText pos marker))).run s := by
  rw [insertBlockMarker, ensureBlockPrefixPosition, bind_assoc, validate_bind s (by simp),
    Store.traceAt]
  by_cases outside : s.workingText.length < pos
  · simp only [if_pos outside, pure_bind, ne_eq, reduceCtorEq, not_false_eq_true, if_true,
      run_textItems]
  · have inside := Nat.le_of_not_lt outside
    simp only [if_neg outside, CallTrace.run]
    rw [after_append]
    apply after_congr
    rw [Store.linksOf_textItems, Store.enqueueAll_nil]
    by_cases inLine : 0 < pos ∧ byteAt s.workingText (pos - 1) ≠ newline
    · have split := s.opsItems_append [.insert pos [newline]] [.insert (pos + 1) marker]
      rw [List.singleton_append] at split
      rw [if_pos inLine, blockOps, if_pos inLine, split, after_append, markdownInsert_eq,
        Option.getD_some, s.traceAt_of_le inside, bind_assoc]
      have proceeds (out : MarkdownResult × Store) :
          ((if out.1 ≠ .success then pure (out.1, out.2, pos)
            else pure (.success, out.2, pos + 1) : m (MarkdownResult × Store × Nat)) >>=
              fun out => if out.1 ≠ .success then pure (out.1, out.2.1)
                else markdownInsert out.2.1 s.version out.2.2 (some marker)) =
            proceed (fun s' => markdownInsert s' s.version (pos + 1) (some marker)) out := by
        by_cases failed : out.1 ≠ .success <;> simp [proceed, failed]
      simp only [proceeds]
      refine (run_proceed _ s _).trans ?_
      apply after_congr
      rw [Store.linksOf_opsItems, ← s.version_enqueueAll [.insert pos [newline]],
        markdownInsert_eq, Store.traceAt_of_le]
      · rfl
      · rw [Store.workingText_enqueueAll]
        simpa using inside
    · rw [if_neg inLine, blockOps, if_neg inLine]
      simp only [pure_bind, ne_eq, not_true_eq_false, if_false]
      rw [markdownInsert_eq, s.traceAt_of_le inside]
      rfl

/-- What an ordered list marker does: drop a space, and then start a line. -/
def orderedListItems (s : Store) (pos : Nat) : List TraceItem :=
  let dropped := dropSpaceOps s.workingText pos
  s.textItems ++ (s.opsItems dropped ++ ((s.enqueueAll dropped).textItems ++
    (s.enqueueAll dropped).opsItems (blockOps s.workingText pos (ascii "1. "))))

theorem markdownOrderedList_eq (s : Store) (pos : Nat) :
    (markdownOrderedList s s.version pos : m (MarkdownResult × Store)) =
      (s.traceAt pos (orderedListItems s pos)).run s := by
  rw [markdownOrderedList, validate_bind s rfl, Store.traceAt]
  by_cases outside : s.workingText.length < pos
  · simp only [if_pos outside, run_textItems]
  · have inside := Nat.le_of_not_lt outside
    simp only [if_neg outside, CallTrace.run, orderedListItems]
    rw [after_append]
    apply after_congr
    rw [Store.linksOf_textItems, Store.enqueueAll_nil, after_append]
    by_cases atSpace : pos < s.workingText.length ∧ byteAt s.workingText pos = space
    · rw [if_pos atSpace, dropSpaceOps, if_pos atSpace, markdownDelete_space_eq atSpace.1]
      refine (run_proceed _ s fun s' =>
        insertBlockMarker s' s.version pos (ascii "1. ")).trans ?_
      apply after_congr
      have still : pos ≤ (s.enqueueAll [.delete pos 1]).workingText.length := by
        rw [Store.workingText_enqueueAll]
        exact le_length_splice_space atSpace.1
      rw [Store.linksOf_opsItems, ← s.version_enqueueAll [.delete pos 1], insertBlockMarker_eq,
        Store.traceAt_of_le still, Store.workingText_enqueueAll, spliceAll_cons, spliceAll_nil,
        blockOps_splice_space atSpace.1]
      rfl
    · rw [if_neg atSpace, dropSpaceOps, if_neg atSpace, insertBlockMarker_eq,
        s.traceAt_of_le inside]
      rfl

/-- What a range command does: it copies the committed text, builds its closing
delimiter and inserts both, or is rejected after the copy. -/
def rangeTrace (s : Store) (closingSizes : List Nat) :
    Except MarkdownResult (List Op) → CallTrace :=
  .ofPlan (requests [s.committedText.length + 1]) fun ops =>
    requests ((s.committedText.length + 1) :: closingSizes) ++ s.opsItems ops

/-- The copy of the committed text that a range command makes first. -/
theorem getCommittedText_bind (s : Store) (later : Option Text → m (MarkdownResult × Store)) :
    getCommittedText s >>= later =
      requestAll [s.committedText.length + 1] >>= fun ok =>
        if ok then later (some s.committedText) else later none := by
  simp only [getCommittedText, strdup, requestAll_singleton, bind_assoc]
  apply bind_bool_congr <;> simp

/-- The two insertions of a range command, the one at its end first. -/
theorem insert_both_eq {s : Store} {start stop : Nat} {opening suffix : Text}
    (startLe : start ≤ s.workingText.length) (stopLe : stop ≤ s.workingText.length) :
    (markdownInsert s s.version stop (some suffix) >>=
        proceed fun s' => markdownInsert s' s.version start (some opening)) =
      after (fun s => (pure (.success, s) : m (MarkdownResult × Store)))
        (s.opsItems [.insert stop suffix, .insert start opening]) s := by
  have still : start ≤ (s.enqueueAll [.insert stop suffix]).workingText.length := by
    rw [Store.workingText_enqueueAll, spliceAll_cons, spliceAll_nil, length_splice_insert]
    exact Nat.le_add_right_of_le startLe
  have split := s.opsItems_append [.insert stop suffix] [.insert start opening]
  rw [List.singleton_append] at split
  rw [split, after_append, markdownInsert_eq, Option.getD_some, s.traceAt_of_le stopLe,
    run_proceed]
  apply after_congr
  rw [Store.linksOf_opsItems, ← s.version_enqueueAll [.insert stop suffix], markdownInsert_eq,
    Store.traceAt_of_le still]
  rfl

theorem formatRange_eq {s : Store} (sound : s.Sound) {start stop : Nat} {opening suffix : Text}
    {closing : m (Option Text)} {closingSizes : List Nat}
    (built : closing = do
      if ← requestAll closingSizes then
        return some suffix
      else
        return none) :
    formatRange s s.version start stop opening closing =
      (rangeTrace s closingSizes
        (planRange s.committedText s.pending start stop opening suffix)).run s := by
  simp only [formatRange, ne_eq, not_true_eq_false, if_false, getCommittedText_bind,
    planRange]
  by_cases invalid : stop ≤ start ∨ s.committedText.length < stop
  · simp only [if_pos invalid, rangeTrace, CallTrace.ofPlan, CallTrace.run, after_requests]
  · rw [not_or, Nat.not_le, Nat.not_lt] at invalid
    have valid : ¬(stop ≤ start ∨ s.committedText.length < stop) := by omega
    simp only [if_neg valid, transformPositionAfterPendingOps_eq]
    cases startMoved : transformOps s.pending start with
    | error r =>
        simp only [Except.bind, rangeTrace, CallTrace.ofPlan, CallTrace.run, after_requests]
    | ok adjustedStart =>
        cases stopMoved : transformOps s.pending stop with
        | error r =>
            simp only [Except.bind, rangeTrace, CallTrace.ofPlan, CallTrace.run, after_requests]
        | ok adjustedEnd =>
            have startLe : adjustedStart ≤ s.workingText.length :=
              transformOps_le (by omega) sound startMoved
            have stopLe : adjustedEnd ≤ s.workingText.length :=
              transformOps_le invalid.2 sound stopMoved
            have sizes : (s.committedText.length + 1) :: closingSizes =
                [s.committedText.length + 1] ++ closingSizes := rfl
            simp only [Except.bind, rangeTrace, CallTrace.ofPlan, CallTrace.run]
            rw [after_append, after_requests, sizes, requestAll_append, bind_assoc]
            apply bind_bool_congr
            · simp only [built, if_true, bind_assoc]
              apply bind_bool_congr
              · simp only [if_true, pure_bind]
                exact insert_both_eq startLe stopLe
              · simp
            · simp

theorem linkSuffix_eq (url : Text) :
    (linkSuffix url : m (Option Text)) = do
      if ← requestAll [url.length + 4 + 1] then
        return some (ascii "](" ++ url ++ ascii ")")
      else
        return none := by
  have fits : (ascii "](" ++ url ++ ascii ")").length < url.length + 4 + 1 := by
    have delimiters : (ascii "](").length = 2 ∧ (ascii ")").length = 1 := by decide
    rw [List.length_append, List.length_append, delimiters.1, delimiters.2]
    omega
  simp only [linkSuffix, snprintf_of_length_lt fits, requestAll_singleton]

/-! ## The trace of an edit call -/

/-- What an accepted call does, from the operations of its plan. -/
def Edit.items (s : Store) : Edit → List Op → List TraceItem
  | .insert _ _, ops => s.opsItems ops
  | .delete _ len, ops => if len = 0 then s.textItems else s.opsItems ops
  | .newline _, ops | .heading _ _, ops | .blockquote _, ops | .unorderedList _, ops
  | .horizontalRule _, ops => s.textItems ++ s.opsItems ops
  | .orderedList pos, _ => orderedListItems s pos
  | .bold _ _, ops | .italic _ _, ops | .code _ _, ops =>
      requests [s.committedText.length + 1] ++ s.opsItems ops
  | .link _ _ url, ops =>
      requests ((s.committedText.length + 1) :: [(url.getD []).length + 4 + 1]) ++ s.opsItems ops

/-- What a call asks for before it rejects its arguments. -/
def Edit.checks (s : Store) : Edit → List TraceItem
  | .heading level _ => if level < 1 ∨ 3 < level then [] else s.textItems
  | .insert _ _ | .delete _ _ | .newline _ | .blockquote _ | .orderedList _ | .unorderedList _
  | .horizontalRule _ => s.textItems
  | .link _ _ none => []
  | .bold _ _ | .italic _ _ | .code _ _ | .link _ _ (some _) =>
      requests [s.committedText.length + 1]

/-- The code of a call at another version than the current one. -/
def Edit.staleResult : Edit → MarkdownResult
  | .heading level _ => if level < 1 ∨ 3 < level then .invalidCursorPos else .outdatedVersion
  | .link _ _ none => .invalidCursorPos
  | _ => .outdatedVersion

/-- The trace of a call of the engine. -/
def Edit.trace (s : Store) (version : UInt64) (e : Edit) : CallTrace :=
  if version ≠ s.version then
    ⟨[], e.staleResult⟩
  else
    .ofPlan (e.checks s) (e.items s) (e.plan s.committedText s.pending)

/-- At another version a call is rejected before it asks for anything. -/
theorem Edit.run_of_stale (e : Edit) {s : Store} {version : UInt64} (stale : version ≠ s.version) :
    (e.run s version : m (MarkdownResult × Store)) = pure (e.staleResult, s) := by
  have validation : (validateVersionAndGetLen s version : m (Except MarkdownResult Text)) =
      pure (.error .outdatedVersion) := by
    rw [validateVersionAndGetLen, if_pos stale]
  have marker (pos : Nat) (text : Text) :
      (insertBlockMarker s version pos text : m (MarkdownResult × Store)) =
        pure (.outdatedVersion, s) := by
    simp [insertBlockMarker, ensureBlockPrefixPosition, validation]
  have range (start stop : Nat) (opening : Text) (closing : m (Option Text)) :
      formatRange s version start stop opening closing = pure (.outdatedVersion, s) := by
    rw [formatRange, if_pos stale]
  cases e with
  | insert pos content => simp [Edit.run, markdownInsert, validation, staleResult]
  | delete pos len => simp [Edit.run, markdownDelete, validation, staleResult]
  | newline pos => simp [Edit.run, markdownNewline, validation, staleResult]
  | orderedList pos => simp [Edit.run, markdownOrderedList, validation, staleResult]
  | heading level pos =>
      rw [Edit.run, markdownHeading, marker, staleResult]
      split <;> rfl
  | blockquote pos | unorderedList pos | horizontalRule pos => exact marker pos _
  | bold start stop | italic start stop | code start stop => exact range start stop _ _
  | link start stop url =>
      cases url with
      | none => rfl
      | some url => exact range start stop _ _

/-- The calls of the engine follow their traces, whatever the allocator answers. -/
theorem Edit.run_eq_trace (e : Edit) {s : Store} (sound : s.Sound) (version : UInt64) :
    (e.run s version : m (MarkdownResult × Store)) = (e.trace s version).run s := by
  by_cases stale : version ≠ s.version
  · rw [e.run_of_stale stale, Edit.trace, if_pos stale]
    rfl
  · have current : version = s.version := not_not.mp stale
    rw [Edit.trace, if_neg stale, current]
    have placed (pos : Nat) (ops : List Op) (items : List Op → List TraceItem) :
        s.traceAt pos (items ops) = .ofPlan s.textItems items (planAt s.workingText pos ops) := by
      rw [Store.traceAt, planAt]
      split <;> rfl
    have ready (delimiter : Text) : (pure (some delimiter) : m (Option Text)) = do
        if ← requestAll [] then return some delimiter else return none := by
      simp
    cases e with
    | insert pos content =>
        rw [Edit.run, markdownInsert_eq, placed]
        rfl
    | delete pos len =>
        rw [Edit.run, markdownDelete_eq]
        by_cases none : len = 0
        · have items : Edit.items s (.delete pos len) = fun _ => s.textItems := by
            funext ops
            rw [Edit.items, if_pos none]
          rw [if_pos none, placed pos [] fun _ => s.textItems, items, Edit.plan, if_pos none]
          rfl
        · have items : Edit.items s (.delete pos len) = s.opsItems := by
            funext ops
            rw [Edit.items, if_neg none]
          rw [if_neg none, placed, items, Edit.plan, if_neg none]
          rfl
    | newline pos =>
        rw [Edit.run, markdownNewline_eq, placed pos _ fun ops => s.textItems ++ s.opsItems ops]
        rfl
    | heading level pos =>
        rw [Edit.run, markdownHeading]
        by_cases bad : level < 1 ∨ 3 < level
        · simp only [if_pos bad, Edit.checks, Edit.plan]
          rfl
        · simp only [if_neg bad, Edit.checks, Edit.plan]
          rw [insertBlockMarker_eq, placed pos _ fun ops => s.textItems ++ s.opsItems ops]
          rfl
    | blockquote pos | unorderedList pos | horizontalRule pos =>
        refine (insertBlockMarker_eq s pos _).trans ?_
        rw [placed pos _ fun ops => s.textItems ++ s.opsItems ops]
        rfl
    | orderedList pos =>
        rw [Edit.run, markdownOrderedList_eq]
        rw [placed pos (dropSpaceOps s.workingText pos ++
          blockOps s.workingText pos (ascii "1. ")) fun _ => orderedListItems s pos]
        rfl
    | bold start stop => exact formatRange_eq sound (ready (ascii "**"))
    | italic start stop => exact formatRange_eq sound (ready (ascii "*"))
    | code start stop => exact formatRange_eq sound (ready (ascii "`"))
    | link start stop url =>
        cases url with
        | none => rfl
        | some url => exact formatRange_eq sound (linkSuffix_eq url)

/-! ## With allocations succeeding -/

theorem linksOf_checks (e : Edit) (s : Store) : linksOf (e.checks s) = [] := by
  cases e with
  | heading level pos =>
      by_cases bad : level < 1 ∨ 3 < level
      · simp only [Edit.checks, if_pos bad]
        rfl
      · simp only [Edit.checks, if_neg bad, Store.linksOf_textItems]
  | link start stop url => cases url <;> rfl
  | insert _ _ | delete _ _ | newline _ | blockquote _ | orderedList _ | unorderedList _
  | horizontalRule _ => exact s.linksOf_textItems
  | bold _ _ | italic _ _ | code _ _ => rfl

theorem linksOf_items (e : Edit) (s : Store) {ops : List Op}
    (planned : e.plan s.committedText s.pending = .ok ops) : linksOf (e.items s ops) = ops := by
  cases e with
  | insert pos content => exact s.linksOf_opsItems ops
  | delete pos len =>
      obtain ⟨-, rfl⟩ := planAt_eq_ok planned
      by_cases none : len = 0
      · simp only [Edit.items, if_pos none, Store.linksOf_textItems]
      · simp only [Edit.items, if_neg none, Store.linksOf_opsItems]
  | orderedList pos =>
      obtain ⟨-, rfl⟩ := planAt_eq_ok planned
      simp only [Edit.items, orderedListItems, linksOf_append, Store.linksOf_textItems,
        Store.linksOf_opsItems, List.nil_append]
      rfl
  | newline _ | heading _ _ | blockquote _ | unorderedList _ | horizontalRule _ =>
      simp only [Edit.items, linksOf_append, Store.linksOf_textItems, Store.linksOf_opsItems,
        List.nil_append]
  | bold _ _ | italic _ _ | code _ _ | link _ _ _ =>
      simp only [Edit.items, linksOf_append, linksOf_requests, Store.linksOf_opsItems,
        List.nil_append]

/-- A trace links all its operations when every request succeeds. -/
theorem CallTrace.run_id (trace : CallTrace) (s : Store) :
    Id.run (trace.run s) = (trace.result, s.enqueueAll (linksOf trace.items)) := by
  rcases trace with ⟨items, result⟩
  simp only [CallTrace.run]
  induction items generalizing s with
  | nil => rfl
  | cons item rest ih =>
      cases item with
      | request size => simpa [after] using ih s
      | link op => exact ih (s.enqueue op)

/-- At the current version an edit call follows its plan. -/
theorem Edit.run_eq (e : Edit) {s : Store} (sound : s.Sound) :
    Id.run (e.run s s.version) = s.follow (e.plan s.committedText s.pending) := by
  rw [e.run_eq_trace sound, CallTrace.run_id, Edit.trace, if_neg (not_not.mpr rfl)]
  cases planned : e.plan s.committedText s.pending with
  | error r => rw [CallTrace.ofPlan, linksOf_checks, Store.enqueueAll_nil, Store.follow]
  | ok ops => rw [CallTrace.ofPlan, linksOf_items e s planned, Store.follow]

end CollabMarkdown.Markdown
