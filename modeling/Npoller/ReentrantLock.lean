import Mathlib.Logic.Basic

/-!
Reentrant locks. A lock is free or has one owner that took it once and possibly
again. `depth` is how often a thread has it; the rules say which thread's depth an
acquisition or a release changes, and when each of the two is refused.
-/

namespace Npoller.ReentrantLock

variable {θ : Type*} [DecidableEq θ]

structure Holding (θ : Type*) where
  owner : θ
  again : Nat

abbrev Lock (θ : Type*) := Option (Holding θ)

variable {lock after : Lock θ} {t u : θ}

/-- Refused while another thread has the lock. -/
def acquire (t : θ) : Lock θ → Option (Lock θ)
  | none => some (some ⟨t, 0⟩)
  | some held => if held.owner = t then some (some ⟨t, held.again + 1⟩) else none

/-- Refused unless the thread has the lock. -/
def release (t : θ) : Lock θ → Option (Lock θ)
  | none => none
  | some held =>
      if held.owner = t then
        match held.again with
        | 0 => some none
        | again + 1 => some (some ⟨t, again⟩)
      else none

def depth : Lock θ → θ → Nat
  | none, _ => 0
  | some held, t => if held.owner = t then held.again + 1 else 0

@[simp] theorem depth_free (t : θ) : depth none t = 0 := rfl

@[simp] theorem depth_owner (t : θ) (again : Nat) : depth (some ⟨t, again⟩) t = again + 1 :=
  if_pos rfl

theorem depth_other (again : Nat) (apart : u ≠ t) : depth (some ⟨t, again⟩) u = 0 :=
  if_neg (Ne.symm apart)

theorem depth_held (taken : 0 < depth lock t) : lock = some ⟨t, depth lock t - 1⟩ := by
  cases lock with
  | none => exact absurd taken (Nat.lt_irrefl 0)
  | some held =>
      obtain ⟨owner, again⟩ := held
      by_cases same : owner = t
      · subst same
        rw [depth_owner, Nat.add_sub_cancel]
      · rw [depth_other again (Ne.symm same)] at taken
        exact absurd taken (Nat.lt_irrefl 0)

theorem owner_unique (taken : 0 < depth lock t) (other : 0 < depth lock u) : t = u := by
  rw [depth_held taken] at other
  by_cases same : u = t
  · exact same.symm
  · rw [depth_other _ same] at other
    exact absurd other (Nat.lt_irrefl 0)

theorem acquire_self (taken : acquire t lock = some after) : depth after t = depth lock t + 1 := by
  cases lock with
  | none =>
      cases taken
      exact depth_owner t 0
  | some held =>
      rw [acquire] at taken
      split at taken
      · rename_i same
        cases taken
        obtain ⟨owner, again⟩ := held
        subst same
        rw [depth_owner, depth_owner]
      · cases taken

theorem acquire_other (taken : acquire t lock = some after) (apart : u ≠ t) :
    depth after u = depth lock u := by
  cases lock with
  | none =>
      cases taken
      exact depth_other 0 apart
  | some held =>
      rw [acquire] at taken
      split at taken
      · rename_i same
        cases taken
        obtain ⟨owner, again⟩ := held
        subst same
        rw [depth_other _ apart, depth_other _ apart]
      · cases taken

theorem acquire_refused : acquire t lock = none ↔ ∃ u, u ≠ t ∧ 0 < depth lock u := by
  cases lock with
  | none => simp [acquire]
  | some held =>
      obtain ⟨owner, again⟩ := held
      have taken : 0 < depth (some ⟨owner, again⟩) owner := by simp
      rw [acquire]
      by_cases same : owner = t
      · rw [if_pos same]
        constructor
        · nofun
        · rintro ⟨u, apart, other⟩
          exact absurd ((owner_unique other taken).trans same) apart
      · rw [if_neg same]
        exact ⟨fun _ => ⟨owner, same, taken⟩, fun _ => rfl⟩

theorem release_self (given : release t lock = some after) : depth lock t = depth after t + 1 := by
  cases lock with
  | none => cases given
  | some held =>
      obtain ⟨owner, again⟩ := held
      rw [release] at given
      split at given
      · rename_i same
        subst same
        rw [depth_owner]
        cases again with
        | zero =>
            cases given
            rfl
        | succ again =>
            cases given
            rw [depth_owner]
      · cases given

theorem release_other (given : release t lock = some after) (apart : u ≠ t) :
    depth after u = depth lock u := by
  cases lock with
  | none => cases given
  | some held =>
      obtain ⟨owner, again⟩ := held
      rw [release] at given
      split at given
      · rename_i same
        subst same
        rw [depth_other _ apart]
        cases again with
        | zero =>
            cases given
            rfl
        | succ again =>
            cases given
            exact depth_other _ apart
      · cases given

theorem release_refused : release t lock = none ↔ depth lock t = 0 := by
  cases lock with
  | none => exact ⟨fun _ => rfl, fun _ => rfl⟩
  | some held =>
      obtain ⟨owner, again⟩ := held
      rw [release]
      by_cases same : owner = t
      · subst same
        rw [if_pos rfl, depth_owner]
        cases again <;> simp
      · rw [if_neg same, depth_other again (Ne.symm same)]
        exact ⟨fun _ => rfl, fun _ => rfl⟩

end Npoller.ReentrantLock
