import Npoller.CasLoop
import Npoller.TcpSetters

/-!
`io::set_readable` and `io::set_writable` of `io/io.h`. Both bits of an io are in one
atomic `type`, and each setter changes a copy of it that holds the other bit too.
-/

namespace Npoller.IoFlags

open StepSystem CasLoop TcpSetters

/-- `io::io_type`: two bit-fields of one word. -/
structure IoType where
  readable : Bool
  writable : Bool
  deriving DecidableEq, Repr

/-- `((bit == 0x01) & flag) || ((bit == 0x0) & !flag)` -/
def BitRight (bit flag : Bool) : Prop := (bit = true ∧ flag = true) ∨ (bit = false ∧ flag = false)

instance (bit flag : Bool) : Decidable (BitRight bit flag) := inferInstanceAs (Decidable (_ ∨ _))

/-- Where the setter returns early on its `current_type`. -/
def SetAlready : Setter → IoType → Prop
  | .readable flag, currentType => BitRight currentType.readable flag
  | .writable flag, currentType => BitRight currentType.writable flag

instance : ∀ setter currentType, Decidable (SetAlready setter currentType)
  | .readable flag, currentType => inferInstanceAs (Decidable (BitRight currentType.readable flag))
  | .writable flag, currentType => inferInstanceAs (Decidable (BitRight currentType.writable flag))

/-- What the setter offers to `compare_exchange_strong`. -/
def nextType : Setter → IoType → IoType
  | .readable flag, currentType => { currentType with readable := flag }
  | .writable flag, currentType => { currentType with writable := flag }

/-- The calls of the setters on an io that starts with the type `first`. -/
def setterSystem (κ : Type*) [DecidableEq κ] (first : IoType) :
    System (Cell κ Setter IoType) (Label κ Setter) := cellSystem nextType SetAlready first

/-- Only the bit of the setter changes, to the value asked for. -/
def OwnBit : Setter → IoType → IoType → Prop
  | .readable flag, before, after => after.readable = flag ∧ after.writable = before.writable
  | .writable flag, before, after => after.writable = flag ∧ after.readable = before.readable

theorem bit_right_iff (bit flag : Bool) : BitRight bit flag ↔ bit = flag := by
  cases bit with
  | false => cases flag <;> decide
  | true => cases flag <;> decide

theorem set_already_still (setter : Setter) (type : IoType) (right : SetAlready setter type) :
    nextType setter type = type := by
  obtain ⟨readable, writable⟩ := type
  cases setter with
  | readable flag =>
      cases (bit_right_iff readable flag).mp right
      rfl
  | writable flag =>
      cases (bit_right_iff writable flag).mp right
      rfl

theorem next_type_own_bit (setter : Setter) (type : IoType) :
    OwnBit setter type (nextType setter type) := by
  cases setter with
  | readable flag => exact ⟨rfl, rfl⟩
  | writable flag => exact ⟨rfl, rfl⟩

variable {κ : Type*} [DecidableEq κ] {first : IoType} {s : Cell κ Setter IoType}

/-- Each call takes effect once, at one of its own steps between its start and its
return, and changes its own bit there; no other step changes the type. -/
structure Atomic (first : IoType) (s : Cell κ Setter IoType) : Prop where
  serial : s.value = replay nextType first s.effects
  once : (s.effects.map Prod.fst).Nodup
  started : ∀ call setter, (call, setter) ∈ s.effects →
    ∃ turn, s.calls call = some ⟨setter, turn⟩ ∧ turn ≠ .entered
  returned : ∀ call setter, s.calls call = some ⟨setter, .returned⟩ → (call, setter) ∈ s.effects
  steps : ∀ label after, (setterSystem κ first).step s label after → Quiet s after ∨
    ∃ call setter, label = .turn call ∧ TakesEffect nextType call setter s after ∧
      OwnBit setter s.value after.value

/-- In every interleaving of the loads and exchanges of any number of calls. -/
theorem setters_take_effect (reached : Reachable (setterSystem κ first) s) : Atomic first s := by
  have accounted := run_accounted reached
  refine ⟨run_replays set_already_still reached, accounted.once, ?_, ?_, ?_⟩
  · intro call setter member
    obtain ⟨turn, at_, taken⟩ := (accounted.taken call setter).mp member
    refine ⟨turn, at_, ?_⟩
    rintro rfl
    exact taken
  · exact fun call setter at_ => returned_taken accounted at_
  · intro label after moves
    rcases step_effect set_already_still accounted (cell_steps moves) with quiet | taken
    · exact Or.inl quiet
    · obtain ⟨call, setter, mine, taken⟩ := taken
      refine Or.inr ⟨call, setter, mine, taken, ?_⟩
      rw [taken.value]
      exact next_type_own_bit setter s.value

/-- Two calls on different bits load the same type, and the exchange of the second one
fails once. -/
def raced : Option (Cell Bool Setter IoType) :=
  [.enter true (.readable true), .enter false (.writable true), .turn true, .turn false,
    .turn true, .turn false, .turn false, .turn true, .turn false].foldlM
    (Label.run nextType SetAlready) ⟨⟨false, false⟩, fun _ => none, []⟩

theorem setters_take_effect_raced : Atomic ⟨false, false⟩ (raced.get (by decide)) := by
  have ran : raced = some (raced.get (by decide)) := (Option.some_get _).symm
  exact setters_take_effect (fold_reachable (fun _ _ _ moved => ⟨trivial, moved⟩) (.start rfl) ran)

end Npoller.IoFlags
