import Mathlib.Logic.Basic

/-!
Double-checked registration. A party adds an entry to a list unless a flag has been
set. It loads the flag, makes at most four attempts to take the mutex without
waiting, loads the flag again after each that fails, and under the mutex once more
before it adds the entry. The flag is set under the mutex, so an entry that gets
into the list was added before the flag was set. An attempt may fail although the
mutex is free.
-/

namespace Npoller.DoubleChecked

variable {π ε : Type*}

structure Cell (π ε : Type*) where
  flag : Bool
  holder : Option π
  entries : List ε

def Cell.new : Cell π ε := { flag := false, holder := none, entries := [] }

inductive Attempt where
  | load
  | tryLock (retryTimes : Nat)
  | reload (retryTimes : Nat)
  | locked
  | unlock (registered : Bool)
  | returned (registered : Bool)
  deriving DecidableEq, Repr

def Attempt.Holds : Attempt → Prop
  | .locked | .unlock _ => True
  | _ => False

def Attempt.Registered : Attempt → Prop
  | .unlock registered | .returned registered => registered = true
  | _ => False

instance (attempt : Attempt) : Decidable attempt.Registered := by
  unfold Attempt.Registered
  split <;> infer_instance

/-- One step of a registration. `got` is what `try_lock` reports, and `single` keeps
the list to one entry. -/
def Cell.attempt (cell : Cell π ε) (party : π) (entry : ε) (single got : Bool) :
    Attempt → Option (Cell π ε × Attempt)
  | .load => some (cell, if cell.flag then .returned false else .tryLock 0)
  -- `try_lock` may fail although the mutex is free.
  | .tryLock retryTimes =>
      if got then
        if cell.holder.isNone then some ({ cell with holder := some party }, .locked) else none
      else some (cell, .reload retryTimes)
  | .reload retryTimes =>
      some (cell, if cell.flag then .returned false
        else if retryTimes < 3 then .tryLock (retryTimes + 1) else .returned false)
  -- The second look, under the mutex.
  | .locked =>
      if cell.flag = false ∧ (single → cell.entries = []) then
        some ({ cell with entries := cell.entries ++ [entry] }, .unlock true)
      else some (cell, .unlock false)
  | .unlock registered => some ({ cell with holder := none }, .returned registered)
  | .returned _ => none

def Held (cell : Cell π ε) (inside : π → Prop) : Prop :=
  ∀ party, cell.holder = some party ↔ inside party

variable {cell next : Cell π ε} {party : π} {entry : ε} {single got : Bool}
  {before after : Attempt} {inside insideAfter : π → Prop}

theorem held_keep (held : Held cell inside) (holder : next.holder = cell.holder)
    (same : ∀ other, insideAfter other ↔ inside other) : Held next insideAfter := by
  intro other
  rw [holder, same other]
  exact held other

theorem held_acquire (held : Held cell inside) (free : cell.holder = none)
    (enters : insideAfter party)
    (same : ∀ other, other ≠ party → (insideAfter other ↔ inside other)) :
    Held { cell with holder := some party } insideAfter := by
  intro other
  constructor
  · rintro ⟨rfl⟩
    exact enters
  · intro isInside
    by_cases mine : other = party
    · rw [mine]
    · have holds := (held other).mpr ((same other mine).mp isInside)
      rw [free] at holds
      cases holds

theorem held_release (held : Held cell inside) (was : inside party) (leaves : ¬insideAfter party)
    (same : ∀ other, other ≠ party → (insideAfter other ↔ inside other)) :
    Held { cell with holder := none } insideAfter := by
  intro other
  constructor
  · nofun
  · intro isInside
    have away : other ≠ party := by
      rintro rfl
      exact leaves isInside
    have mine := (held party).mpr was
    have other_holds := (held other).mpr ((same other away).mp isInside)
    rw [mine] at other_holds
    cases other_holds
    exact absurd rfl away

inductive AttemptStep (cell : Cell π ε) (party : π) (entry : ε) (single : Bool) :
    Attempt → Cell π ε → Attempt → Prop where
  | looked {before after : Attempt} (outside : ¬before.Holds ∧ ¬after.Holds)
      (unregistered : ¬before.Registered ∧ ¬after.Registered) :
      AttemptStep cell party entry single before cell after
  | entered {retryTimes : Nat} (free : cell.holder = none) :
      AttemptStep cell party entry single (.tryLock retryTimes)
        { cell with holder := some party } .locked
  | added (down : cell.flag = false) (room : single → cell.entries = []) :
      AttemptStep cell party entry single .locked
        { cell with entries := cell.entries ++ [entry] } (.unlock true)
  | refused : AttemptStep cell party entry single .locked cell (.unlock false)
  | left (registered : Bool) :
      AttemptStep cell party entry single (.unlock registered) { cell with holder := none }
        (.returned registered)

theorem attempt_steps (moves : cell.attempt party entry single got before = some (next, after)) :
    AttemptStep cell party entry single before next after := by
  cases before with
  | load =>
      cases moves
      split
      · exact .looked ⟨id, id⟩ ⟨id, Bool.false_ne_true⟩
      · exact .looked ⟨id, id⟩ ⟨id, id⟩
  | tryLock retryTimes =>
      simp only [Cell.attempt] at moves
      split at moves
      · split at moves
        · rename_i free
          cases moves
          exact .entered (Option.isNone_iff_eq_none.mp free)
        · cases moves
      · cases moves
        exact .looked ⟨id, id⟩ ⟨id, id⟩
  | reload retryTimes =>
      cases moves
      split
      · exact .looked ⟨id, id⟩ ⟨id, Bool.false_ne_true⟩
      · split
        · exact .looked ⟨id, id⟩ ⟨id, id⟩
        · exact .looked ⟨id, id⟩ ⟨id, Bool.false_ne_true⟩
  | locked =>
      simp only [Cell.attempt] at moves
      split at moves
      · rename_i down
        cases moves
        exact .added down.1 down.2
      · cases moves
        exact .refused
  | unlock registered =>
      cases moves
      exact .left registered
  | returned registered => cases moves

theorem attempt_held (held : Held cell inside)
    (moves : cell.attempt party entry single got before = some (next, after))
    (here : inside party ↔ before.Holds) (there : insideAfter party ↔ after.Holds)
    (same : ∀ other, other ≠ party → (insideAfter other ↔ inside other)) :
    Held next insideAfter := by
  have kept (stays : before.Holds ↔ after.Holds) : ∀ other, insideAfter other ↔ inside other := by
    intro other
    by_cases mine : other = party
    · subst mine
      rw [here, there, stays]
    · exact same other mine
  cases attempt_steps moves with
  | looked outside _ => exact held_keep held rfl (kept (iff_of_false outside.1 outside.2))
  | entered free => exact held_acquire held free (there.mpr trivial) same
  | added _ _ | refused => exact held_keep held rfl (kept Iff.rfl)
  | left _ => exact held_release held (here.mpr trivial) (fun isInside => there.mp isInside) same

theorem attempt_flag (moves : cell.attempt party entry single got before = some (next, after)) :
    next.flag = cell.flag := by
  cases attempt_steps moves <;> rfl

/-- An entry is added exactly when the registration becomes a success, by a party
that holds the mutex while the flag is down. -/
theorem attempt_entries (moves : cell.attempt party entry single got before = some (next, after)) :
    (next.entries = cell.entries ∧ (after.Registered ↔ before.Registered)) ∨
    (next.entries = cell.entries ++ [entry] ∧ cell.flag = false ∧ before = .locked ∧
      after.Registered ∧ (single → cell.entries = [])) := by
  cases attempt_steps moves with
  | looked _ unregistered => exact .inl ⟨rfl, iff_of_false unregistered.2 unregistered.1⟩
  | entered _ | left _ => exact .inl ⟨rfl, Iff.rfl⟩
  | added down room => exact .inr ⟨rfl, down, rfl, rfl, room⟩
  | refused => exact .inl ⟨rfl, iff_of_false Bool.false_ne_true id⟩

end Npoller.DoubleChecked
