import Mathlib.Data.Int.Interval
import CollabMarkdown.Process.Registry
import CollabMarkdown.Sequence.Keyed
import CollabMarkdown.Transition.Run

/-!
# The registry as a map

Over any sequence of calls the registry stands for a map from pids to records:
an add puts in a record for a pid that has none, a remove takes one out, and
everything else is refused and changes nothing.  The map is stated on the history of
the calls alone.

A `pid_t` has 32 bits, which bounds the number of records and keeps the counter
from wrapping.
-/

namespace CollabMarkdown.Process

open CollabMarkdown.CString
open CollabMarkdown.Command
open CollabMarkdown.Sequence
open CollabMarkdown.Transition

/-! ## Calls -/

/-- The registry argument of a call. -/
inductive RegistryArg where
  | null
  | registry
  deriving DecidableEq, Repr

/-- A call that may change the registry, with its arguments; absent strings and
streams are NULL. -/
inductive RegistryCall where
  | add (target : RegistryArg) (pid : Int32) (username : Option Text) (role : UserRole)
      (fifoC2sPath fifoS2cPath : Option Text) (outStream : Option StreamId)
  | remove (target : RegistryArg) (pid : Int32)
  deriving DecidableEq, Repr

/-- The registry and the streams it closes. -/
structure RegistryState where
  registry : ClientRegistry
  streams : Streams

/-- A call that was made, and whether it returned 0. -/
structure RegistryEvent where
  call : RegistryCall
  ok : Bool
  deriving DecidableEq, Repr

/-- `client_registry_count`, of a registry that may be NULL. -/
def clientRegistryCount : Option ClientRegistry → Nat
  | none => 0
  | some registry => registry.count

/-- One call, with allocations succeeding.  A NULL registry is refused at once. -/
def registryStep (state : RegistryState) (call : RegistryCall) : RegistryState × RegistryEvent :=
  match call with
  | .add .null _ _ _ _ _ _ | .remove .null _ => (state, ⟨call, false⟩)
  | .add .registry pid username role fifoC2sPath fifoS2cPath outStream =>
      let (ok, registry, streams) := Id.run (clientRegistryAdd state.registry state.streams
        pid.toInt username role fifoC2sPath fifoS2cPath outStream)
      (⟨registry, streams⟩, ⟨call, ok⟩)
  | .remove .registry pid =>
      let (ok, registry, streams) := clientRegistryRemove state.registry state.streams pid.toInt
      (⟨registry, streams⟩, ⟨call, ok⟩)

/-! ## What the calls mean -/

/-- The pid a successful call is about and what it leaves there. -/
def RegistryCall.effect : RegistryCall → Option (Pid × Option ClientConn)
  | .add .registry pid (some username) role (some fifoC2sPath) (some fifoS2cPath)
      (some outStream) =>
      some (pid.toInt,
        some ⟨pid.toInt, username, role, fifoC2sPath, fifoS2cPath, outStream⟩)
  | .remove .registry pid => some (pid.toInt, none)
  | _ => none

/-- The map after one more event. -/
def RegistryEvent.apply (event : RegistryEvent) (records : Pid → Option ClientConn) :
    Pid → Option ClientConn :=
  match event.ok, event.call.effect with
  | true, some (pid, record) => Function.update records pid record
  | _, _ => records

/-- The record of the last successful add of each pid, unless a remove of that pid
followed. -/
def recordsAfter (history : List RegistryEvent) : Pid → Option ClientConn :=
  history.foldl (fun records event => event.apply records) fun _ => none

/-- What a call is refused for. -/
def RegistryCall.Refused (registry : ClientRegistry) : RegistryCall → Prop
  | .add target pid username _ fifoC2sPath fifoS2cPath outStream =>
      target = .null ∨ username = none ∨ fifoC2sPath = none ∨ fifoS2cPath = none ∨
        outStream = none ∨ clientRegistryFind registry pid.toInt ≠ none
  | .remove target pid => target = .null ∨ clientRegistryFind registry pid.toInt = none

/-! ## One call -/

theorem clientRegistryFind_eq (registry : ClientRegistry) :
    clientRegistryFind registry = lookup (·.pid) registry.head :=
  rfl

/-- What holds of the registry throughout. -/
structure ClientRegistry.Consistent (registry : ClientRegistry) : Prop where
  distinct : Keyed (·.pid) registry.head
  counted : registry.count = registry.head.length
  inRange : ∀ conn ∈ registry.head, -2 ^ 31 ≤ conn.pid ∧ conn.pid < 2 ^ 31

theorem ClientRegistry.consistent_init : clientRegistryInit.Consistent where
  distinct := Keyed.nil
  counted := rfl
  inRange _ member := absurd member List.not_mem_nil

theorem unlinkConn_of_absent {pid : Pid} {conns : List ClientConn}
    (absent : lookup (·.pid) conns pid = none) : unlinkConn pid conns = none := by
  induction conns with
  | nil => rfl
  | cons cur rest ih =>
      have missing := lookup_eq_none_iff.mp absent
      rw [List.map_cons, List.mem_cons, not_or] at missing
      simp [unlinkConn, Ne.symm missing.1, ih (lookup_eq_none_iff.mpr missing.2)]

theorem unlinkConn_of_lookup {pid : Pid} {conns : List ClientConn} {record : ClientConn}
    (distinct : Keyed (·.pid) conns) (found : lookup (·.pid) conns pid = some record) :
    unlinkConn pid conns = some (record, without (·.pid) pid conns) := by
  obtain ⟨member, rfl⟩ := mem_of_lookup found
  exact unlinkConn_eq distinct member

/-- Everything a call can do: be refused, put a record in front, or take one out. -/
theorem registryStep_cases (state : RegistryState) (call : RegistryCall)
    (distinct : Keyed (·.pid) state.registry.head) :
    (call.Refused state.registry ∧ registryStep state call = (state, ⟨call, false⟩)) ∨
    (∃ pid record, call.effect = some (pid, some record) ∧ record.pid = pid ∧
      (-2 ^ 31 ≤ pid ∧ pid < 2 ^ 31) ∧ ¬call.Refused state.registry ∧
      clientRegistryFind state.registry pid = none ∧
      registryStep state call =
        (⟨⟨record :: state.registry.head, state.registry.count + 1⟩, state.streams⟩,
          ⟨call, true⟩)) ∨
    ∃ pid record, call = .remove .registry pid ∧
      clientRegistryFind state.registry pid.toInt = some record ∧
      registryStep state call =
        (⟨⟨without (·.pid) pid.toInt state.registry.head, sizeSub state.registry.count 1⟩,
          fclose state.streams record.outStream⟩, ⟨call, true⟩) := by
  match call with
  | .add .null .. | .remove .null _ => exact .inl ⟨.inl rfl, rfl⟩
  | .add .registry _ none .. => exact .inl ⟨.inr (.inl rfl), rfl⟩
  | .add .registry _ (some _) _ none .. => exact .inl ⟨by simp [RegistryCall.Refused], rfl⟩
  | .add .registry _ (some _) _ (some _) none _ =>
      exact .inl ⟨by simp [RegistryCall.Refused], rfl⟩
  | .add .registry _ (some _) _ (some _) (some _) none =>
      exact .inl ⟨by simp [RegistryCall.Refused], rfl⟩
  | .add .registry pid (some username) role (some fifoC2sPath) (some fifoS2cPath)
      (some outStream) =>
      cases found : clientRegistryFind state.registry pid.toInt with
      | some record =>
          left
          constructor
          · simp [RegistryCall.Refused, found]
          · simp [registryStep, run_clientRegistryAdd, found]
      | none =>
          right; left
          refine ⟨pid.toInt, _, rfl, rfl, ⟨pid.le_toInt, pid.toInt_lt⟩, ?_, found, ?_⟩
          · simp [RegistryCall.Refused, found]
          · simp [registryStep, run_clientRegistryAdd, found]
  | .remove .registry pid =>
      cases found : clientRegistryFind state.registry pid.toInt with
      | none =>
          left
          constructor
          · exact .inr found
          · rw [registryStep, clientRegistryRemove, unlinkConn_of_absent found]
      | some record =>
          right; right
          refine ⟨pid, record, rfl, found, ?_⟩
          rw [registryStep, clientRegistryRemove, unlinkConn_of_lookup distinct found]

section

variable (state : RegistryState) (call : RegistryCall)
  (distinct : Keyed (·.pid) state.registry.head)

include distinct

/-- A call fails exactly when it is refused. -/
theorem registryStep_ok_eq_false_iff :
    (registryStep state call).2.ok = false ↔ call.Refused state.registry := by
  rcases registryStep_cases state call distinct with
    ⟨refused, step⟩ | ⟨pid, record, -, -, -, accepted, -, step⟩ | ⟨pid, record, rfl, found, step⟩
  · simp [step, refused]
  · simp [step, accepted]
  · simp [step, RegistryCall.Refused, found]

theorem registryStep_of_failed (failed : (registryStep state call).2.ok = false) :
    (registryStep state call).1 = state := by
  rcases registryStep_cases state call distinct with
    ⟨-, step⟩ | ⟨pid, record, -, -, -, -, -, step⟩ | ⟨pid, record, -, -, step⟩
  · rw [step]
  · simp [step] at failed
  · simp [step] at failed

/-- A remove keeps all other records in order, also when there is none to remove. -/
theorem registryStep_remove (pid : Int32) :
    (registryStep state (.remove .registry pid)).1.registry.head =
      without (·.pid) pid.toInt state.registry.head := by
  rcases registryStep_cases state (.remove .registry pid) distinct with
    ⟨refused, step⟩ | ⟨_, record, effect, -⟩ | ⟨_, record, same, -, step⟩
  · have absent := refused.resolve_left RegistryArg.noConfusion
    rw [step]
    symm
    apply List.filter_eq_self.mpr
    intro conn member
    have apart : conn.pid ≠ pid.toInt := fun same =>
      lookup_eq_none_iff.mp absent (same ▸ List.mem_map_of_mem member)
    simpa using apart
  · simp [RegistryCall.effect] at effect
  · cases same
    rw [step]

end

/-! ## Runs -/

namespace ClientRegistry.Consistent

variable {registry : ClientRegistry}

/-- There are no more records than pids. -/
theorem length_le (consistent : registry.Consistent) : registry.head.length ≤ 2 ^ 32 := by
  have bound := consistent.distinct.length_le_card fun conn member =>
    Finset.mem_Ico.mpr (consistent.inRange conn member)
  rwa [Int.card_Ico] at bound

theorem cons (consistent : registry.Consistent) {record : ClientConn}
    (fresh : clientRegistryFind registry record.pid = none)
    (fits : -2 ^ 31 ≤ record.pid ∧ record.pid < 2 ^ 31) :
    ClientRegistry.Consistent ⟨record :: registry.head, registry.count + 1⟩ where
  distinct := consistent.distinct.cons fresh
  counted := congrArg (· + 1) consistent.counted
  inRange conn member := by
    rcases List.mem_cons.mp member with rfl | older
    · exact fits
    · exact consistent.inRange conn older

theorem without (consistent : registry.Consistent) {pid : Pid} {record : ClientConn}
    (found : clientRegistryFind registry pid = some record) :
    ClientRegistry.Consistent
      ⟨Sequence.without (·.pid) pid registry.head, sizeSub registry.count 1⟩ where
  distinct := consistent.distinct.without pid
  counted := by
    have shorter := consistent.distinct.length_without found
    have some_left : 1 ≤ registry.count := by rw [consistent.counted]; omega
    change sizeSub registry.count 1 = (Sequence.without (·.pid) pid registry.head).length
    rw [sizeSub_of_le some_left, consistent.counted]
    omega
  inRange conn member := consistent.inRange conn (List.mem_of_mem_filter member)

end ClientRegistry.Consistent

/-- The registry is consistent and stands for the map its history leaves. -/
def Tracks (history : List RegistryEvent) (state : RegistryState) : Prop :=
  state.registry.Consistent ∧ lookup (·.pid) state.registry.head = recordsAfter history

theorem recordsAfter_concat (history : List RegistryEvent) (event : RegistryEvent) :
    recordsAfter (history ++ [event]) = event.apply (recordsAfter history) := by
  simp [recordsAfter]

theorem RegistryEvent.apply_of_failed (call : RegistryCall) (records : Pid → Option ClientConn) :
    RegistryEvent.apply ⟨call, false⟩ records = records :=
  rfl

theorem RegistryEvent.apply_of_effect {call : RegistryCall} {pid : Pid}
    {record : Option ClientConn} (effect : call.effect = some (pid, record))
    (records : Pid → Option ClientConn) :
    RegistryEvent.apply ⟨call, true⟩ records = Function.update records pid record := by
  simp [RegistryEvent.apply, effect]

theorem registryStep_tracks (history : List RegistryEvent) (state : RegistryState)
    (call : RegistryCall) (tracks : Tracks history state) :
    Tracks (history ++ [(registryStep state call).2]) (registryStep state call).1 := by
  obtain ⟨consistent, map⟩ := tracks
  rw [Tracks, recordsAfter_concat, ← map]
  rcases registryStep_cases state call consistent.distinct with
    ⟨-, step⟩ | ⟨pid, record, effect, rfl, fits, -, fresh, step⟩ | ⟨pid, record, rfl, found, step⟩
  · rw [step, RegistryEvent.apply_of_failed]
    exact ⟨consistent, rfl⟩
  · rw [step, RegistryEvent.apply_of_effect effect]
    exact ⟨consistent.cons fresh fits, lookup_cons record _⟩
  · rw [step, RegistryEvent.apply_of_effect rfl]
    exact ⟨consistent.without found, lookup_without _ _⟩

/-- The registry refines the map of its history: after any sequence of calls the pids
are distinct, the counter is the number of records, a lookup gives the record last
added, and the next call is refused exactly when it cannot be made, in which case it
changes nothing. -/
theorem clientRegistry_refines_map (streams : Streams) (calls : List RegistryCall) :
    let final := run registryStep ⟨clientRegistryInit, streams⟩ calls
    let registry := final.1.registry
    (registry.head.map (·.pid)).Nodup ∧
      clientRegistryCount (some registry) = registry.head.length ∧
      registry.count + 1 < sizeModulus ∧
      (∀ pid, clientRegistryFind registry pid = recordsAfter final.2 pid) ∧
      ∀ call, ((registryStep final.1 call).2.ok = false ↔ call.Refused registry) ∧
        ((registryStep final.1 call).2.ok = false → (registryStep final.1 call).1 = final.1) ∧
        ∀ pid, call = .remove .registry pid →
          (registryStep final.1 call).1.registry.head =
            registry.head.filter (·.pid != pid.toInt) := by
  intro final registry
  obtain ⟨consistent, map⟩ : Tracks final.2 final.1 :=
    run_history registryStep Tracks registryStep_tracks
      ⟨ClientRegistry.consistent_init, rfl⟩ calls
  refine ⟨consistent.distinct, consistent.counted, ?_, ?_, ?_⟩
  · have bound := consistent.length_le
    rw [consistent.counted]
    exact Nat.lt_of_le_of_lt (Nat.add_le_add_right bound 1) (by decide)
  · intro pid
    rw [clientRegistryFind_eq, map]
  · intro call
    refine ⟨registryStep_ok_eq_false_iff final.1 call consistent.distinct,
      registryStep_of_failed final.1 call consistent.distinct, ?_⟩
    rintro pid rfl
    exact registryStep_remove final.1 consistent.distinct pid

end CollabMarkdown.Process
