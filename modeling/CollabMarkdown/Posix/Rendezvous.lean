import CollabMarkdown.Posix.Fifos

/-!
# Meeting at a FIFO

Two parties open the two ends of a FIFO that nobody else opens.  Whoever comes first
waits, and no longer waits once the other one has come, unless that one has given up.
-/

namespace CollabMarkdown.Posix

universe u v

/-- How far a party has got at its end of a FIFO. -/
inductive Stage where
  | ahead
  | waiting (fifo : Fifo) (ticket : Nat)
  | through (fifo : Fifo)
  | departed
  deriving DecidableEq, Repr

/-- The FIFO whose end the party has opened and holds. -/
def Stage.fifo : Stage → Option Fifo
  | .waiting fifo _ | .through fifo => some fifo
  | .ahead | .departed => none

@[simp]
theorem Side.other_other (side : Side) : side.other.other = side := by
  cases side <;> rfl

@[simp]
theorem Side.other_ne (side : Side) : side.other ≠ side := by
  cases side <;> decide

theorem Side.eq_or_eq_other (one other : Side) : other = one ∨ other = one.other := by
  cases one <;> cases other <;> simp [Side.other]

variable {π : Type u} {η : Type v}

/-- Where the two parties at a FIFO are, and what that says about its ends. -/
structure Rendezvous (fs : Fifos π η) (fifo : Fifo) (who : Side → η) (stage : Side → Stage) :
    Prop where
  ahead : ∀ side, stage side = .ahead →
    fs.held (fifo, side) = ∅ ∧ fs.arrivals (fifo, side) = 0
  present : ∀ side opened, (stage side).fifo = some opened →
    opened = fifo ∧ who side ∈ fs.held (fifo, side) ∧ 0 < fs.arrivals (fifo, side)
  ticket : ∀ side opened ticket, stage side = .waiting opened ticket →
    stage side.other ≠ .departed → ticket = 0
  met : ∀ side opened, stage side = .through opened → 0 < fs.arrivals (fifo, side.other)

namespace Rendezvous

variable {fs fs' : Fifos π η} {fifo : Fifo} {who : Side → η} {stage : Side → Stage} {side : Side}

/-- Nobody has come to a FIFO that is made now. -/
theorem fresh (wellFormed : fs.WellFormed) (new : fs.made.length ≤ fifo)
    (away : ∀ side, stage side = .ahead ∨ stage side = .departed) :
    Rendezvous fs fifo who stage where
  ahead side _ := wellFormed.unused fifo side new
  present side _ here := by
    rcases away side with there | there <;> simp [there, Stage.fifo] at here
  ticket side _ _ here := by
    rcases away side with there | there <;> simp [there] at here
  met side _ here := by
    rcases away side with there | there <;> simp [there] at here

/-- It speaks of the ends of this FIFO alone. -/
theorem congr (rendezvous : Rendezvous fs fifo who stage)
    (same : ∀ side, fs'.held (fifo, side) = fs.held (fifo, side) ∧
      fs'.arrivals (fifo, side) = fs.arrivals (fifo, side)) :
    Rendezvous fs' fifo who stage where
  ahead side here := by
    rw [(same side).1, (same side).2]
    exact rendezvous.ahead side here
  present side opened here := by
    rw [(same side).1, (same side).2]
    exact rendezvous.present side opened here
  ticket := rendezvous.ticket
  met side opened here := by
    rw [(same side.other).2]
    exact rendezvous.met side opened here

/-- One party takes hold of its end. -/
theorem arrive [DecidableEq η] (rendezvous : Rendezvous fs fifo who stage)
    (here : stage side = .ahead) :
    Rendezvous (fs.arrive fifo side (who side)) fifo who
      (Function.update stage side (.waiting fifo (fs.ticket fifo side))) := by
  have apart : (fifo, side.other) ≠ (fifo, side) := by simp
  have elsewhere : Function.update stage side (.waiting fifo (fs.ticket fifo side)) side.other =
      stage side.other := Function.update_of_ne (Side.other_ne side) ..
  constructor
  · intro side' ahead
    rcases Side.eq_or_eq_other side side' with rfl | rfl
    · simp at ahead
    · rw [elsewhere] at ahead
      simpa [Fifos.arrive, Function.update_of_ne apart] using rendezvous.ahead _ ahead
  · intro side' opened present
    rcases Side.eq_or_eq_other side side' with rfl | rfl
    · rw [Function.update_self, Stage.fifo, Option.some.injEq] at present
      simp [Fifos.arrive, present]
    · rw [elsewhere] at present
      simpa [Fifos.arrive, Function.update_of_ne apart] using rendezvous.present _ _ present
  · intro side' opened ticket waiting stays
    rcases Side.eq_or_eq_other side side' with rfl | rfl
    · rw [Function.update_self, Stage.waiting.injEq] at waiting
      rw [elsewhere] at stays
      rw [← waiting.2, Fifos.ticket]
      -- With nobody at the other end, nobody has been there either.
      split
      · rename_i empty
        cases there : stage side'.other with
        | ahead => exact (rendezvous.ahead _ there).2
        | waiting _ _ | through _ =>
            have member := (rendezvous.present side'.other _ (by rw [there]; rfl)).2.1
            rw [empty] at member
            exact absurd member (Finset.notMem_empty _)
        | departed => exact absurd there stays
      · rfl
    · rw [elsewhere] at waiting
      exact rendezvous.ticket _ opened ticket waiting (by simp [here])
  · intro side' opened through
    rcases Side.eq_or_eq_other side side' with rfl | rfl
    · simp at through
    · rw [elsewhere] at through
      have positive := rendezvous.met _ opened through
      rw [Side.other_other, (rendezvous.ahead side here).2] at positive
      contradiction

/-- The wait of one party is over. -/
theorem meet {opened : Fifo} {ticket : Nat} (rendezvous : Rendezvous fs fifo who stage)
    (here : stage side = .waiting opened ticket) (met : fs.met opened side ticket = true) :
    Rendezvous fs fifo who (Function.update stage side (.through opened)) := by
  have elsewhere : Function.update stage side (.through opened) side.other = stage side.other :=
    Function.update_of_ne (Side.other_ne side) ..
  have there := rendezvous.present side opened (by rw [here]; rfl)
  constructor
  · intro side' ahead
    rcases Side.eq_or_eq_other side side' with rfl | rfl
    · simp at ahead
    · rw [elsewhere] at ahead
      exact rendezvous.ahead _ ahead
  · intro side' other present
    rcases Side.eq_or_eq_other side side' with rfl | rfl
    · rw [Function.update_self, Stage.fifo, Option.some.injEq] at present
      exact present ▸ there
    · rw [elsewhere] at present
      exact rendezvous.present _ _ present
  · intro side' other ticket' waiting stays
    rcases Side.eq_or_eq_other side side' with rfl | rfl
    · simp at waiting
    · rw [elsewhere] at waiting
      exact rendezvous.ticket _ other ticket' waiting (by simp [here])
  · intro side' other through
    rcases Side.eq_or_eq_other side side' with rfl | rfl
    · rw [Fifos.met, decide_eq_true_eq, there.1] at met
      exact Nat.zero_lt_of_lt met
    · rw [elsewhere] at through
      exact rendezvous.met _ other through

/-- One party gives up and lets go of all it holds. -/
theorem leave [DecidableEq η] (rendezvous : Rendezvous fs fifo who stage)
    (apart : who side.other ≠ who side) :
    Rendezvous (fs.releaseAll (who side)) fifo who (Function.update stage side .departed) := by
  have elsewhere : Function.update stage side .departed side.other = stage side.other :=
    Function.update_of_ne (Side.other_ne side) ..
  constructor
  · intro side' ahead
    rcases Side.eq_or_eq_other side side' with rfl | rfl
    · simp at ahead
    · rw [elsewhere] at ahead
      obtain ⟨empty, never⟩ := rendezvous.ahead _ ahead
      exact ⟨by simp [Fifos.releaseAll, empty], never⟩
  · intro side' opened present
    rcases Side.eq_or_eq_other side side' with rfl | rfl
    · simp [Stage.fifo] at present
    · rw [elsewhere] at present
      obtain ⟨same, member, came⟩ := rendezvous.present _ _ present
      exact ⟨same, Finset.mem_erase.mpr ⟨apart, member⟩, came⟩
  · intro side' opened ticket waiting stays
    rcases Side.eq_or_eq_other side side' with rfl | rfl
    · simp at waiting
    · simp at stays
  · intro side' opened through
    rcases Side.eq_or_eq_other side side' with rfl | rfl
    · simp at through
    · rw [elsewhere] at through
      exact rendezvous.met _ opened through

/-- Nobody waits for one who is there. -/
theorem met_of_present {opened other : Fifo} {ticket : Nat}
    (rendezvous : Rendezvous fs fifo who stage) (here : stage side = .waiting opened ticket)
    (there : (stage side.other).fifo = some other) : fs.met opened side ticket = true := by
  have came := (rendezvous.present _ _ there).2.2
  have same := (rendezvous.present side opened (by rw [here]; rfl)).1
  have zero : ticket = 0 := by
    apply rendezvous.ticket side opened ticket here
    intro gone
    simp [gone, Stage.fifo] at there
  simpa [Fifos.met, zero, same] using came

/-- Nobody gets through before the other one has come. -/
theorem other_ne_ahead (rendezvous : Rendezvous fs fifo who stage) (side : Side)
    {opened : Fifo} (here : stage side = .through opened) : stage side.other ≠ .ahead := by
  intro ahead
  have came := rendezvous.met side opened here
  rw [(rendezvous.ahead _ ahead).2] at came
  contradiction

end Rendezvous

/-! ## The FIFO at a path -/

/-- The path leads to a FIFO where the two parties meet. -/
def MeetAt (fs : Fifos π η) (path : π) (who : Side → η) (stage : Side → Stage) : Prop :=
  ∃ fifo, fs.entry path = some fifo ∧ Rendezvous fs fifo who stage

namespace MeetAt

variable {fs fs' : Fifos π η} {path : π} {who : Side → η} {stage : Side → Stage} {side : Side}

theorem make [DecidableEq π] (wellFormed : fs.WellFormed) (made : fs.mkfifo path = some fs')
    (away : ∀ side, stage side = .ahead ∨ stage side = .departed) : MeetAt fs' path who stage := by
  obtain ⟨-, rfl⟩ := Fifos.mkfifo_eq_some made
  refine ⟨fs.made.length, Function.update_self .., ?_⟩
  exact (Rendezvous.fresh wellFormed (Nat.le_refl _) away).congr fun _ => ⟨rfl, rfl⟩

/-- Another FIFO is made. -/
theorem make_of_ne [DecidableEq π] (meetAt : MeetAt fs path who stage) {other : π}
    (made : fs.mkfifo other = some fs') (apart : path ≠ other) : MeetAt fs' path who stage := by
  obtain ⟨fifo, found, rendezvous⟩ := meetAt
  refine ⟨fifo, (Fifos.entry_mkfifo_of_ne made apart).trans found, rendezvous.congr fun _ => ?_⟩
  obtain ⟨-, rfl⟩ := Fifos.mkfifo_eq_some made
  exact ⟨rfl, rfl⟩

theorem arrive [DecidableEq η] (meetAt : MeetAt fs path who stage) {fifo : Fifo}
    (found : fs.entry path = some fifo) (here : stage side = .ahead) :
    MeetAt (fs.arrive fifo side (who side)) path who
      (Function.update stage side (.waiting fifo (fs.ticket fifo side))) := by
  obtain ⟨other, found', rendezvous⟩ := meetAt
  obtain rfl : fifo = other := Option.some.inj (found.symm.trans found')
  exact ⟨fifo, found, rendezvous.arrive here⟩

/-- Someone opens an end of another FIFO. -/
theorem arrive_of_ne [DecidableEq η] (wellFormed : fs.WellFormed)
    (meetAt : MeetAt fs path who stage) {other : π} {fifo : Fifo}
    (found : fs.entry other = some fifo) (apart : path ≠ other) (side : Side) (visitor : η) :
    MeetAt (fs.arrive fifo side visitor) path who stage := by
  obtain ⟨here, found', rendezvous⟩ := meetAt
  have different : here ≠ fifo := by
    rintro rfl
    have named := wellFormed.named _ _ found
    rw [wellFormed.named _ _ found'] at named
    exact apart (Option.some.inj named)
  refine ⟨here, found', rendezvous.congr fun side' => ?_⟩
  have places : (here, side') ≠ (fifo, side) := fun same => different (Prod.ext_iff.mp same).1
  exact ⟨Function.update_of_ne places .., Function.update_of_ne places ..⟩

theorem meet (meetAt : MeetAt fs path who stage) {opened : Fifo} {ticket : Nat}
    (here : stage side = .waiting opened ticket) (met : fs.met opened side ticket = true) :
    MeetAt fs path who (Function.update stage side (.through opened)) := by
  obtain ⟨fifo, found, rendezvous⟩ := meetAt
  exact ⟨fifo, found, rendezvous.meet here met⟩

theorem leave [DecidableEq η] (meetAt : MeetAt fs path who stage)
    (apart : who side.other ≠ who side) :
    MeetAt (fs.releaseAll (who side)) path who (Function.update stage side .departed) := by
  obtain ⟨fifo, found, rendezvous⟩ := meetAt
  exact ⟨fifo, found, rendezvous.leave apart⟩

/-- Those who go by other paths do not disturb it. -/
theorem call [DecidableEq π] [DecidableEq η] (meetAt : MeetAt fs path who stage) {visitor : η}
    {paths : Side → π} {holds rest : List (Fifo × Side)} (wellFormed : fs.WellFormed)
    (accounts : fs.Accounts visitor paths holds)
    (call : Fifos.Call visitor paths fs holds fs' rest) (apart : ∀ side, path ≠ paths side) :
    MeetAt fs' path who stage := by
  obtain ⟨fifo, found, rendezvous⟩ := meetAt
  refine ⟨fifo, (call.entry_of_ne apart).trans found, rendezvous.congr ?_⟩
  exact call.untouched wellFormed accounts (wellFormed.named _ _ found) apart

/-- Both parties have the same FIFO. -/
theorem same (meetAt : MeetAt fs path who stage) (side : Side) {one other : Fifo}
    (here : (stage side).fifo = some one) (there : (stage side.other).fifo = some other) :
    one = other := by
  obtain ⟨fifo, -, rendezvous⟩ := meetAt
  rw [(rendezvous.present _ _ here).1, (rendezvous.present _ _ there).1]

end MeetAt

end CollabMarkdown.Posix
