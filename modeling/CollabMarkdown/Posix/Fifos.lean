import Mathlib.Data.Finset.Erase
import Mathlib.Data.Finset.Insert
import Mathlib.Logic.Function.Basic

/-!
# Named pipes

A file system gives paths to FIFOs.  A FIFO goes on when its path is gone.  Opening
one end of it waits until the other end is open, or has been opened in the meantime.
Those who open ends are told apart by names of an arbitrary type; each opens an end
once at most.
-/

namespace CollabMarkdown.Posix

universe u v

/-- The two ends of a FIFO. -/
inductive Side where
  | read
  | write
  deriving DecidableEq, Repr

/-- The end that is not this one. -/
def Side.other : Side → Side
  | .read => .write
  | .write => .read

/-- A FIFO, by its place among those ever made. -/
abbrev Fifo : Type := Nat

/-- The FIFOs of a file system: the paths they were made under, the paths that are there
now, who holds each end open, and how often each end has been opened. -/
structure Fifos (π : Type u) (η : Type v) where
  made : List π
  entry : π → Option Fifo
  held : Fifo × Side → Finset η
  arrivals : Fifo × Side → Nat

namespace Fifos

variable {π : Type u} {η : Type v}

/-- A path leads to a FIFO made under it, and the ends of a FIFO yet to be made have not
been opened. -/
structure WellFormed (fs : Fifos π η) : Prop where
  named : ∀ path fifo, fs.entry path = some fifo → fs.made[fifo]? = some path
  unused : ∀ fifo side, fs.made.length ≤ fifo →
    fs.held (fifo, side) = ∅ ∧ fs.arrivals (fifo, side) = 0

theorem WellFormed.lt_of_entry {fs : Fifos π η} (wellFormed : fs.WellFormed) {path : π}
    {fifo : Fifo} (found : fs.entry path = some fifo) : fifo < fs.made.length :=
  (List.getElem?_eq_some_iff.mp (wellFormed.named path fifo found)).1

/-! ## Paths -/

section

variable [DecidableEq π]

/-- The FIFOs that are left from earlier runs, under different paths. -/
def ofPaths (paths : List π) : Fifos π η where
  made := paths
  entry path := paths.idxOf? path
  held _ := ∅
  arrivals _ := 0

theorem wellFormed_ofPaths (paths : List π) : (ofPaths paths : Fifos π η).WellFormed where
  named path fifo found := by
    obtain ⟨bound, here, -⟩ := List.idxOf?_eq_some_iff.mp found
    rw [ofPaths, List.getElem?_eq_getElem bound, here]
  unused _ _ _ := ⟨rfl, rfl⟩

/-- `unlink`. -/
def unlink (fs : Fifos π η) (path : π) : Fifos π η :=
  { fs with entry := Function.update fs.entry path none }

/-- Absent if the path is there already. -/
def mkfifo (fs : Fifos π η) (path : π) : Option (Fifos π η) :=
  if (fs.entry path).isSome then
    none
  else
    some
      { fs with
        made := fs.made ++ [path]
        entry := Function.update fs.entry path (some fs.made.length) }

/-- Making a FIFO fails, or gives it a path that was not there. -/
theorem mkfifo_eq_some {fs fs' : Fifos π η} {path : π} (made : fs.mkfifo path = some fs') :
    fs.entry path = none ∧ fs' =
      { fs with
        made := fs.made ++ [path]
        entry := Function.update fs.entry path (some fs.made.length) } := by
  unfold mkfifo at made
  split at made
  · contradiction
  · rename_i absent
    exact ⟨by simpa using absent, (Option.some.inj made).symm⟩

theorem mkfifo_of_absent {fs : Fifos π η} {path : π} (absent : fs.entry path = none) :
    fs.mkfifo path = some
      { fs with
        made := fs.made ++ [path]
        entry := Function.update fs.entry path (some fs.made.length) } := by
  simp [mkfifo, absent]

@[simp]
theorem entry_unlink_self (fs : Fifos π η) (path : π) : (fs.unlink path).entry path = none :=
  Function.update_self ..

theorem entry_unlink_of_none {fs : Fifos π η} {path : π} (absent : fs.entry path = none)
    (other : π) : (fs.unlink other).entry path = none := by
  by_cases here : path = other
  · rw [here, entry_unlink_self]
  · exact (Function.update_of_ne here ..).trans absent

theorem entry_mkfifo_of_ne {fs fs' : Fifos π η} {path other : π}
    (made : fs.mkfifo other = some fs') (apart : path ≠ other) :
    fs'.entry path = fs.entry path := by
  obtain ⟨-, rfl⟩ := mkfifo_eq_some made
  exact Function.update_of_ne apart ..

theorem WellFormed.unlink {fs : Fifos π η} (wellFormed : fs.WellFormed) (path : π) :
    (fs.unlink path).WellFormed where
  named other fifo found := by
    by_cases here : other = path
    · subst here
      simp [Fifos.unlink] at found
    · simp only [Fifos.unlink, Function.update_of_ne here] at found
      exact wellFormed.named other fifo found
  unused := wellFormed.unused

theorem WellFormed.mkfifo {fs fs' : Fifos π η} (wellFormed : fs.WellFormed) {path : π}
    (made : fs.mkfifo path = some fs') : fs'.WellFormed := by
  obtain ⟨-, rfl⟩ := mkfifo_eq_some made
  constructor
  · intro other fifo found
    by_cases here : other = path
    · subst here
      have last : fs.made.length = fifo := by simpa using found
      rw [← last]
      exact List.getElem?_concat_length
    · simp only [Function.update_of_ne here] at found
      have older := wellFormed.named other fifo found
      simpa [List.getElem?_append_left (List.getElem?_eq_some_iff.mp older).1] using older
  · intro fifo side beyond
    rw [List.length_append] at beyond
    exact wellFormed.unused fifo side (Nat.le_of_add_right_le beyond)

end

/-! ## Ends -/

section

variable [DecidableEq η]

/-- Take hold of an end, and wait for the other one from then on. -/
def arrive (fs : Fifos π η) (fifo : Fifo) (side : Side) (who : η) : Fifos π η :=
  { fs with
    held := Function.update fs.held (fifo, side) (insert who (fs.held (fifo, side)))
    arrivals := Function.update fs.arrivals (fifo, side) (fs.arrivals (fifo, side) + 1) }

/-- How often the other end must have been opened for an opener not to wait.  Nobody
waits when that end is held. -/
def ticket (fs : Fifos π η) (fifo : Fifo) (side : Side) : Nat :=
  if fs.held (fifo, side.other) = ∅ then fs.arrivals (fifo, side.other) else 0

/-- The wait at an end is over. -/
def met (fs : Fifos π η) (fifo : Fifo) (side : Side) (ticket : Nat) : Bool :=
  ticket < fs.arrivals (fifo, side.other)

/-- One that has an end open closes it. -/
def release (fs : Fifos π η) (fifo : Fifo) (side : Side) (who : η) : Fifos π η :=
  { fs with held := Function.update fs.held (fifo, side) ((fs.held (fifo, side)).erase who) }

/-- A process that ends lets go of all it holds. -/
def releaseAll (fs : Fifos π η) (who : η) : Fifos π η :=
  { fs with held := fun place => (fs.held place).erase who }

variable (fs : Fifos π η) (fifo : Fifo) (side : Side) (who : η)

theorem mem_held_arrive {place : Fifo × Side} {holder : η} :
    holder ∈ (fs.arrive fifo side who).held place ↔
      holder ∈ fs.held place ∨ holder = who ∧ place = (fifo, side) := by
  by_cases here : place = (fifo, side)
  · subst here
    simp [arrive, or_comm]
  · simp [arrive, here]

theorem mem_held_release {place : Fifo × Side} {holder : η} :
    holder ∈ (fs.release fifo side who).held place ↔
      holder ∈ fs.held place ∧ ¬(holder = who ∧ place = (fifo, side)) := by
  by_cases here : place = (fifo, side)
  · subst here
    simp [release, and_comm]
  · simp [release, here]

theorem mem_held_releaseAll {place : Fifo × Side} {holder : η} :
    holder ∈ (fs.releaseAll who).held place ↔ holder ≠ who ∧ holder ∈ fs.held place :=
  Finset.mem_erase

theorem arrivals_arrive_self :
    (fs.arrive fifo side who).arrivals (fifo, side) = fs.arrivals (fifo, side) + 1 :=
  Function.update_self ..

variable {fifo side} in
theorem arrivals_arrive_of_ne {place : Fifo × Side} (apart : place ≠ (fifo, side)) :
    (fs.arrive fifo side who).arrivals place = fs.arrivals place :=
  Function.update_of_ne apart ..

variable {fs}

theorem WellFormed.arrive (wellFormed : fs.WellFormed) {fifo : Fifo}
    (exists_ : fifo < fs.made.length) (side : Side) (who : η) :
    (fs.arrive fifo side who).WellFormed where
  named := wellFormed.named
  unused other side' beyond := by
    have apart : (other, side') ≠ (fifo, side) := by
      rintro ⟨⟩
      exact absurd exists_ (Nat.not_lt.mpr beyond)
    have still := wellFormed.unused other side' beyond
    simpa [Fifos.arrive, Function.update_of_ne apart] using still

theorem WellFormed.release (wellFormed : fs.WellFormed) (fifo : Fifo) (side : Side) (who : η) :
    (fs.release fifo side who).WellFormed where
  named := wellFormed.named
  unused other side' beyond := by
    obtain ⟨nobody, never⟩ := wellFormed.unused other side' beyond
    refine ⟨?_, never⟩
    rw [Finset.eq_empty_iff_forall_notMem]
    intro holder member
    rw [mem_held_release, nobody] at member
    exact absurd member.1 (Finset.notMem_empty holder)

theorem WellFormed.releaseAll (wellFormed : fs.WellFormed) (who : η) :
    (fs.releaseAll who).WellFormed where
  named := wellFormed.named
  unused other side beyond := by
    obtain ⟨nobody, never⟩ := wellFormed.unused other side beyond
    exact ⟨by simp [Fifos.releaseAll, nobody], never⟩

end

/-! ## What one party does -/

/-- The ends a party holds are known, and are those of FIFOs made under the paths it goes
by for either side. -/
structure Accounts (fs : Fifos π η) (who : η) (paths : Side → π) (holds : List (Fifo × Side)) :
    Prop where
  mem_iff : ∀ place, who ∈ fs.held place ↔ place ∈ holds
  made_eq : ∀ place ∈ holds, fs.made[place.1]? = some (paths place.2)

variable [DecidableEq π] [DecidableEq η]

/-- A call of a party, which goes by two paths, with the ends it holds before and after. -/
inductive Call (who : η) (paths : Side → π) (fs : Fifos π η) (holds : List (Fifo × Side)) :
    Fifos π η → List (Fifo × Side) → Prop where
  | none {rest : List (Fifo × Side)} (same : ∀ place, place ∈ rest ↔ place ∈ holds) :
      Call who paths fs holds fs rest
  | unlink (side : Side) : Call who paths fs holds (fs.unlink (paths side)) holds
  | mkfifo (side : Side) {fs' : Fifos π η} (made : fs.mkfifo (paths side) = some fs') :
      Call who paths fs holds fs' holds
  | arrive (side : Side) {fifo : Fifo} (found : fs.entry (paths side) = some fifo) :
      Call who paths fs holds (fs.arrive fifo side who) (holds ++ [(fifo, side)])
  | release {fifo : Fifo} {side : Side} {rest : List (Fifo × Side)}
      (left : ∀ place, place ∈ rest ↔ place ∈ holds ∧ place ≠ (fifo, side)) :
      Call who paths fs holds (fs.release fifo side who) rest
  | releaseAll : Call who paths fs holds (fs.releaseAll who) []

namespace Call

variable {who : η} {paths : Side → π} {fs fs' : Fifos π η} {holds rest : List (Fifo × Side)}

theorem wellFormed (call : Call who paths fs holds fs' rest) (wellFormed : fs.WellFormed) :
    fs'.WellFormed := by
  cases call with
  | none same => exact wellFormed
  | unlink side => exact wellFormed.unlink _
  | mkfifo side made => exact wellFormed.mkfifo made
  | arrive side found => exact wellFormed.arrive (wellFormed.lt_of_entry found) _ _
  | release left => exact wellFormed.release _ _ _
  | releaseAll => exact wellFormed.releaseAll _

/-- FIFOs keep their places. -/
theorem made_prefix (call : Call who paths fs holds fs' rest) : fs.made <+: fs'.made := by
  cases call with
  | mkfifo side made =>
      obtain ⟨-, rfl⟩ := mkfifo_eq_some made
      exact List.prefix_append _ _
  | none _ | unlink _ | arrive _ _ | release _ | releaseAll => exact List.prefix_rfl

theorem made_eq (call : Call who paths fs holds fs' rest) {fifo : Fifo} {path : π}
    (made : fs.made[fifo]? = some path) : fs'.made[fifo]? = some path := by
  obtain ⟨later, grown⟩ := call.made_prefix
  rw [← grown, List.getElem?_append_left (List.getElem?_eq_some_iff.mp made).1]
  exact made

/-- Only the two paths of the party can change. -/
theorem entry_of_ne (call : Call who paths fs holds fs' rest) {path : π}
    (apart : ∀ side, path ≠ paths side) : fs'.entry path = fs.entry path := by
  cases call with
  | unlink side => exact Function.update_of_ne (apart side) ..
  | mkfifo side made => exact entry_mkfifo_of_ne made (apart side)
  | none _ | arrive _ _ | release _ | releaseAll => rfl

/-- The accounts of the party are kept. -/
theorem accounts (call : Call who paths fs holds fs' rest) (wellFormed : fs.WellFormed)
    (accounts : fs.Accounts who paths holds) : fs'.Accounts who paths rest := by
  obtain ⟨mem_iff, made_eq⟩ := accounts
  have kept (place : Fifo × Side) (member : place ∈ holds) :
      fs'.made[place.1]? = some (paths place.2) := call.made_eq (made_eq place member)
  cases call with
  | none same =>
      exact ⟨fun place => (mem_iff place).trans (same place).symm,
        fun place member => made_eq place ((same place).mp member)⟩
  | unlink side => exact ⟨mem_iff, kept⟩
  | mkfifo side made =>
      refine ⟨?_, kept⟩
      obtain ⟨-, rfl⟩ := mkfifo_eq_some made
      exact mem_iff
  | @arrive side fifo found =>
      constructor
      · intro place
        rw [mem_held_arrive, mem_iff, List.mem_append, List.mem_singleton, eq_self, true_and]
      · intro place member
        rcases List.mem_append.mp member with older | new
        · exact kept place older
        · rw [List.mem_singleton.mp new]
          exact wellFormed.named _ _ found
  | release left =>
      constructor
      · intro place
        rw [mem_held_release, mem_iff, left, eq_self, true_and]
      · intro place member
        exact kept place ((left place).mp member).1
  | releaseAll =>
      constructor
      · intro place
        rw [mem_held_releaseAll]
        simp
      · intro place member
        exact absurd member List.not_mem_nil

/-- So are those of another one. -/
theorem accounts_of_ne (call : Call who paths fs holds fs' rest) {other : η} {paths' : Side → π}
    {holds' : List (Fifo × Side)} (apart : other ≠ who)
    (accounts : fs.Accounts other paths' holds') : fs'.Accounts other paths' holds' := by
  obtain ⟨mem_iff, made_eq⟩ := accounts
  refine ⟨?_, fun place member => call.made_eq (made_eq place member)⟩
  intro place
  rw [← mem_iff place]
  cases call with
  | mkfifo side made =>
      obtain ⟨-, rfl⟩ := mkfifo_eq_some made
      exact Iff.rfl
  | none _ | unlink _ => exact Iff.rfl
  | arrive _ _ => rw [mem_held_arrive, or_iff_left fun same => apart same.1]
  | release _ => rw [mem_held_release, and_iff_left fun same => apart same.1]
  | releaseAll => rw [mem_held_releaseAll, and_iff_right apart]

/-- The ends of a FIFO that was made under none of the paths of the party are left alone. -/
theorem untouched (call : Call who paths fs holds fs' rest) (wellFormed : fs.WellFormed)
    (accounts : fs.Accounts who paths holds) {fifo : Fifo} {path : π}
    (made : fs.made[fifo]? = some path) (apart : ∀ side, path ≠ paths side) (side : Side) :
    fs'.held (fifo, side) = fs.held (fifo, side) ∧
      fs'.arrivals (fifo, side) = fs.arrivals (fifo, side) := by
  have elsewhere (other : Fifo) (side' : Side) (named : fs.made[other]? = some (paths side')) :
      (fifo, side) ≠ (other, side') := by
    rintro ⟨⟩
    rw [named] at made
    exact apart side (Option.some.inj made).symm
  have absent : who ∉ fs.held (fifo, side) := by
    intro member
    have named := accounts.made_eq _ ((accounts.mem_iff _).mp member)
    exact elsewhere fifo side named rfl
  cases call with
  | none _ | unlink _ => exact ⟨rfl, rfl⟩
  | mkfifo side made =>
      obtain ⟨-, rfl⟩ := mkfifo_eq_some made
      exact ⟨rfl, rfl⟩
  | arrive side found =>
      have different := elsewhere _ _ (wellFormed.named _ _ found)
      exact ⟨Function.update_of_ne different .., Function.update_of_ne different ..⟩
  | release left =>
      refine ⟨?_, rfl⟩
      ext holder
      rw [mem_held_release, and_iff_left_iff_imp]
      rintro member ⟨rfl, -⟩
      exact absent member
  | releaseAll => exact ⟨Finset.erase_eq_of_notMem absent, rfl⟩

/-- Nothing that has happened is forgotten. -/
theorem arrivals_le (call : Call who paths fs holds fs' rest) (place : Fifo × Side) :
    fs.arrivals place ≤ fs'.arrivals place := by
  cases call with
  | mkfifo side made =>
      obtain ⟨-, rfl⟩ := mkfifo_eq_some made
      exact Nat.le_refl _
  | @arrive side fifo found =>
      by_cases here : place = (fifo, side)
      · rw [here, arrivals_arrive_self]
        exact Nat.le_succ _
      · rw [arrivals_arrive_of_ne _ _ here]
  | none _ | unlink _ | release _ | releaseAll => exact Nat.le_refl _

end Call

end Fifos

end CollabMarkdown.Posix
