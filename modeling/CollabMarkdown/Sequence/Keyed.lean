import Mathlib.Data.Finset.Card
import Mathlib.Data.List.Nodup
import Mathlib.Logic.Function.Basic

/-!
# Lists of records as maps

A list of records without two of the same key stands for a finite map from keys
to records.  Putting a record with a fresh key in front and dropping the record
of a key are the two updates of the map.
-/

namespace CollabMarkdown.Sequence

universe u v

variable {α : Type u} {κ : Type v} [DecidableEq κ] {key : α → κ}

/-- The map a list of records stands for. -/
def lookup (key : α → κ) (records : List α) (k : κ) : Option α :=
  records.find? (key · == k)

/-- No key occurs twice. -/
def Keyed (key : α → κ) (records : List α) : Prop :=
  (records.map key).Nodup

/-- The records of all other keys, in order. -/
def without (key : α → κ) (k : κ) (records : List α) : List α :=
  records.filter (key · != k)

@[simp]
theorem lookup_nil (k : κ) : lookup key [] k = none :=
  rfl

theorem lookup_cons (record : α) (records : List α) :
    lookup key (record :: records) =
      Function.update (lookup key records) (key record) (some record) := by
  funext k
  by_cases here : key record = k
  · subst here
    simp [lookup]
  · simp [lookup, here, Ne.symm here]

theorem lookup_without (k : κ) (records : List α) :
    lookup key (without key k records) = Function.update (lookup key records) k none := by
  funext k'
  rw [lookup, without, List.find?_filter]
  by_cases here : k' = k
  · subst here
    rw [Function.update_self, List.find?_eq_none]
    simp
  · rw [Function.update_of_ne here, lookup]
    congr 1
    funext record
    by_cases same : key record = k' <;> simp [same, here]

theorem lookup_eq_none_iff {k : κ} {records : List α} :
    lookup key records k = none ↔ k ∉ records.map key := by
  simp [lookup, List.find?_eq_none]

theorem mem_of_lookup {k : κ} {records : List α} {record : α}
    (found : lookup key records k = some record) : record ∈ records ∧ key record = k :=
  ⟨List.mem_of_find?_eq_some found, by simpa using List.find?_some found⟩

namespace Keyed

omit [DecidableEq κ] in
theorem nil : Keyed key [] :=
  List.nodup_nil

theorem cons {record : α} {records : List α} (keyed : Keyed key records)
    (fresh : lookup key records (key record) = none) : Keyed key (record :: records) :=
  List.nodup_cons.mpr ⟨lookup_eq_none_iff.mp fresh, keyed⟩

theorem without {records : List α} (keyed : Keyed key records) (k : κ) :
    Keyed key (Sequence.without key k records) :=
  keyed.sublist (List.filter_sublist.map _)

/-- There are no more records than keys. -/
theorem length_le_card {records : List α} (keyed : Keyed key records) {keys : Finset κ}
    (among : ∀ record ∈ records, key record ∈ keys) : records.length ≤ keys.card := by
  have counted : (records.map key).toFinset.card = records.length := by
    rw [List.toFinset_card_of_nodup keyed, List.length_map]
  rw [← counted]
  apply Finset.card_le_card
  intro k member
  obtain ⟨record, inside, rfl⟩ := List.mem_map.mp (List.mem_toFinset.mp member)
  exact among record inside

/-- Dropping a key that occurs makes the list one record shorter. -/
theorem length_without {records : List α} (keyed : Keyed key records) {k : κ} {record : α}
    (found : lookup key records k = some record) :
    (Sequence.without key k records).length + 1 = records.length := by
  obtain ⟨member, here⟩ := mem_of_lookup found
  have once : (records.map key).count k = 1 :=
    List.count_eq_one_of_mem keyed (here ▸ List.mem_map_of_mem member)
  rw [List.count, List.countP_map] at once
  have split := List.length_eq_countP_add_countP (p := fun record => key record == k) (l := records)
  have rest : (Sequence.without key k records).length =
      records.countP fun record => ¬(key record == k) = true := by
    rw [Sequence.without, ← List.countP_eq_length_filter]
    congr 1
    funext record
    simp [bne, beq_eq_decide]
  rw [split, rest, Nat.add_comm]
  congr 1
  exact once.symm

end Keyed

end CollabMarkdown.Sequence
