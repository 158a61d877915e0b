import CollabMarkdown.Process.Faults

/-!
# Broadcasts to broken clients

A broadcast under any pattern of failing streams.  The loop stops at the first
client whose stream fails, so the clients behind it, which joined earlier, get
nothing, and its only caller drops the result.  The healthy clients all get the
payload exactly when none of them stands behind a broken one.
-/

namespace CollabMarkdown.Process

open CollabMarkdown.CString
open CollabMarkdown.Command

/-! ## Outcomes -/

/-- The loop of a broadcast under a pattern of failures. -/
def broadcastToUnder (faults : StreamFaults) (payload : Text) (conns : List ClientConn)
    (streams : Streams) : Bool × Streams :=
  Id.run ((broadcastTo payload conns streams : ReaderT StreamFaults Id _).run faults)

/-- A broadcast under a pattern of failures. -/
def broadcastUnder (faults : StreamFaults) (registry : ClientRegistry) (streams : Streams)
    (payload : Text) : Bool × Streams :=
  Id.run ((clientRegistryBroadcast registry streams payload : ReaderT StreamFaults Id _).run
    faults)

/-- The clients a broadcast reaches: those in front of the first broken one. -/
def reached (faults : StreamFaults) (conns : List ClientConn) : List ClientConn :=
  conns.takeWhile fun cur => faults.accepts cur.outStream

/-- The first broken client and those behind it. -/
def blocked (faults : StreamFaults) (conns : List ClientConn) : List ClientConn :=
  conns.dropWhile fun cur => faults.accepts cur.outStream

/-! ## The loop -/

variable {faults : StreamFaults} {payload : Text} {cur : ClientConn} {rest : List ClientConn}

theorem broadcastToUnder_of_accepts (accepted : faults.accepts cur.outStream = true)
    (streams : Streams) :
    broadcastToUnder faults payload (cur :: rest) streams =
      broadcastToUnder faults payload rest
        (Function.update streams cur.outStream ((streams cur.outStream).send payload)) := by
  obtain ⟨written, flushed⟩ := Bool.and_eq_true_iff.mp accepted
  have sent : Function.update
      (Function.update streams cur.outStream ((streams cur.outStream).buffer payload))
      cur.outStream ((streams cur.outStream).buffer payload).drain =
        Function.update streams cur.outStream ((streams cur.outStream).send payload) := by
    rw [Function.update_idem]
    rfl
  simp [broadcastToUnder, broadcastTo, fputs, fflush, written, flushed, sent]

/-- A broken client ends the loop, and no healthy stream changes. -/
theorem broadcastToUnder_of_not_accepts (broken : faults.accepts cur.outStream = false)
    (streams : Streams) :
    (broadcastToUnder faults payload (cur :: rest) streams).1 = false ∧
      ∀ out, faults.accepts out = true →
        (broadcastToUnder faults payload (cur :: rest) streams).2 out = streams out := by
  by_cases written : faults.writes cur.outStream = true
  · have flushed : faults.flushes cur.outStream = false := by
      simpa [StreamFaults.accepts, written] using broken
    constructor
    · simp [broadcastToUnder, broadcastTo, fputs, fflush, written, flushed]
    · intro out accepted
      have apart : out ≠ cur.outStream := by
        rintro rfl
        simp [accepted] at broken
      simp [broadcastToUnder, broadcastTo, fputs, fflush, written, flushed, apart]
  · constructor <;>
      simp [broadcastToUnder, broadcastTo, fputs, written]

/-- A healthy stream gets the payload when its client is reached, and nothing
otherwise. -/
theorem broadcastToUnder_apply (conns : List ClientConn) (streams : Streams)
    (distinct : (conns.map (·.outStream)).Nodup) {out : StreamId}
    (accepted : faults.accepts out = true) :
    (broadcastToUnder faults payload conns streams).2 out =
      if out ∈ (reached faults conns).map (·.outStream) then (streams out).send payload
      else streams out := by
  induction conns generalizing streams with
  | nil => rfl
  | cons cur rest ih =>
      obtain ⟨fresh, later⟩ := List.nodup_cons.mp distinct
      cases healthy : faults.accepts cur.outStream with
      | false =>
          rw [(broadcastToUnder_of_not_accepts healthy streams).2 out accepted]
          simp [reached, healthy]
      | true =>
          have front : reached faults (cur :: rest) = cur :: reached faults rest :=
            List.takeWhile_cons_of_pos healthy
          rw [broadcastToUnder_of_accepts healthy, ih _ later, front, List.map_cons]
          by_cases here : out = cur.outStream
          · subst here
            have unsent : cur.outStream ∉ (reached faults rest).map (·.outStream) :=
              fun member => fresh (((List.takeWhile_sublist _).map _).subset member)
            rw [if_neg unsent, if_pos List.mem_cons_self, Function.update_self]
          · simp [here]

/-! ## Delivery -/

/-- Every client whose stream accepts writes has been sent the payload once. -/
def AllSent (faults : StreamFaults) (registry : ClientRegistry) (payload : Text)
    (before after : Streams) : Prop :=
  ∀ conn ∈ registry.head, faults.accepts conn.outStream = true →
    after conn.outStream = (before conn.outStream).send payload

instance (faults : StreamFaults) (registry : ClientRegistry) (payload : Text)
    (before after : Streams) : Decidable (AllSent faults registry payload before after) :=
  inferInstanceAs (Decidable (∀ conn ∈ registry.head, _ → _))

/-- No client whose stream accepts writes stands behind a broken one, unless there is
nothing to send it. -/
def NoneBehind (faults : StreamFaults) (registry : ClientRegistry) (payload : Text)
    (before : Streams) : Prop :=
  ∀ conn ∈ blocked faults registry.head, faults.accepts conn.outStream = true →
    payload = [] ∧ (before conn.outStream).buffered = []

instance (faults : StreamFaults) (registry : ClientRegistry) (payload : Text)
    (before : Streams) : Decidable (NoneBehind faults registry payload before) :=
  inferInstanceAs (Decidable (∀ conn ∈ blocked faults registry.head, _ → _))

theorem OutStream.send_eq_self_iff {stream : OutStream} :
    stream = stream.send payload ↔ payload = [] ∧ stream.buffered = [] := by
  constructor
  · intro same
    have drained : stream.buffered = [] := congrArg OutStream.buffered same
    have written := written_send drained payload
    rw [← same] at written
    exact ⟨by simpa using written, drained⟩
  · rintro ⟨rfl, drained⟩
    obtain ⟨buffered, written, closes⟩ := stream
    simp only at drained
    simp [send, buffer, drain, drained]

theorem mem_reached_or_blocked {conns : List ClientConn} {conn : ClientConn} :
    conn ∈ conns ↔ conn ∈ reached faults conns ∨ conn ∈ blocked faults conns := by
  rw [← List.mem_append, reached, blocked, List.takeWhile_append_dropWhile]

/-- The stream of a blocked client is none of those reached. -/
theorem outStream_notMem_reached {conns : List ClientConn}
    (distinct : (conns.map (·.outStream)).Nodup) {conn : ClientConn}
    (behind : conn ∈ blocked faults conns) :
    conn.outStream ∉ (reached faults conns).map (·.outStream) := by
  rw [← List.takeWhile_append_dropWhile (p := fun cur => faults.accepts cur.outStream) (l := conns),
    List.map_append] at distinct
  intro front
  exact (List.nodup_append.mp distinct).2.2 _ front _ (List.mem_map_of_mem behind) rfl

/-- Under any pattern of failures, with a stream of its own for each client, a
broadcast reaches every healthy client exactly when none of them stands behind a
broken one. -/
theorem clientRegistryBroadcast_allSent_iff (faults : StreamFaults) (registry : ClientRegistry)
    (streams : Streams) (payload : Text)
    (distinct : (registry.head.map (·.outStream)).Nodup) :
    AllSent faults registry payload streams
        (broadcastUnder faults registry streams payload).2 ↔
      NoneBehind faults registry payload streams := by
  have outcome {out : StreamId} (accepted : faults.accepts out = true) :
      (broadcastUnder faults registry streams payload).2 out =
        if out ∈ (reached faults registry.head).map (·.outStream) then (streams out).send payload
        else streams out :=
    broadcastToUnder_apply registry.head streams distinct accepted
  constructor
  · intro sent conn behind accepted
    have got := sent conn (mem_reached_or_blocked.mpr (Or.inr behind)) accepted
    rw [outcome accepted, if_neg (outStream_notMem_reached distinct behind)] at got
    exact OutStream.send_eq_self_iff.mp got
  · intro clear conn member accepted
    rw [outcome accepted]
    rcases mem_reached_or_blocked.mp member with front | behind
    · rw [if_pos (List.mem_map_of_mem front)]
    · rw [if_neg (outStream_notMem_reached distinct behind)]
      exact OutStream.send_eq_self_iff.mpr (clear conn behind accepted)

/-- Bob joined first, so Eve stands in front of him. -/
def bobBehindEve : ClientRegistry where
  head :=
    [⟨1002, ascii "eve", .read, ascii "FIFO_C2S_1002", ascii "FIFO_S2C_1002", 2⟩,
      ⟨1001, ascii "bob", .write, ascii "FIFO_C2S_1001", ascii "FIFO_S2C_1001", 1⟩]
  count := 2

/-- One stream breaks: it still takes bytes, but can no longer be flushed. -/
def broken (out : StreamId) : StreamFaults where
  writes _ := true
  flushes other := other != out

/-- When the older client breaks, the newer one is still served. -/
theorem clientRegistryBroadcast_allSent_broken_last :
    AllSent (broken 1) bobBehindEve (ascii "VERSION 1\nEND\n") (fun _ => .empty)
      (broadcastUnder (broken 1) bobBehindEve (fun _ => .empty) (ascii "VERSION 1\nEND\n")).2 :=
  (clientRegistryBroadcast_allSent_iff _ _ _ _ (by decide)).mpr (by decide)

/-- When Eve's stream breaks, the broadcast never gets to Bob. -/
theorem clientRegistryBroadcast_starves_bob :
    (bobBehindEve.head.map (·.outStream)).Nodup ∧ (broken 2).accepts 1 = true ∧
      ¬AllSent (broken 2) bobBehindEve (ascii "VERSION 1\nEND\n") (fun _ => .empty)
        (broadcastUnder (broken 2) bobBehindEve (fun _ => .empty)
          (ascii "VERSION 1\nEND\n")).2 := by
  decide

end CollabMarkdown.Process
