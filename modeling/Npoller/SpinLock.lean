import Mathlib.Logic.Function.Basic
import Mathlib.Order.Basic
import Npoller.ReentrantLock
import Npoller.StepSystem

/-!
`reentrant_spin_lock`: the calls of any number of threads as atomic steps. A
successful acquisition is counted at its compare-exchange, a release at the last
step of its `unlock`. The thread with more of the first owns the lock, and the
plain `int count` is that difference except between the steps of its owner.
-/

namespace Npoller.SpinLock

open StepSystem ReentrantLock

variable {θ : Type*} [DecidableEq θ]

inductive Locking where
  | lock
  | tryLock
  deriving DecidableEq, Repr

inductive Outcome where
  | locked
  | tryLocked (won : Bool)
  | unlocked
  | thrown
  deriving DecidableEq, Repr

def Locking.won : Locking → Outcome
  | .lock => .locked
  | .tryLock => .tryLocked true

/-- What a thread does next: `exchange` to `store` in `lock` and `try_lock`, `check`
to `free` in `unlock`. `count++` and `--count` are a load and a store. -/
inductive Pc where
  | idle (last : Option Outcome)
  | exchange (by_ : Locking)
  | spin
  | load (by_ : Locking)
  | store (by_ : Locking) (value : Int)
  | check
  | loadBack
  | storeBack (value : Int)
  | free
  deriving DecidableEq, Repr

inductive Call where
  | lock
  | tryLock
  | unlock
  deriving DecidableEq, Repr

def Call.entry : Call → Pc
  | .lock => .exchange .lock
  | .tryLock => .exchange .tryLock
  | .unlock => .check

/-- `none` is `default_id`, which no thread has. -/
structure Spin (θ : Type*) where
  threadId : Option θ
  count : Int
  pc : θ → Pc
  acquired : θ → Nat
  released : θ → Nat

def Spin.new : Spin θ := ⟨none, 0, fun _ => .idle none, fun _ => 0, fun _ => 0⟩

def Spin.goto (s : Spin θ) (t : θ) (pc : Pc) : Spin θ :=
  { s with pc := Function.update s.pc t pc }

/-- How many acquisitions of a thread are not released. -/
def Spin.nested (s : Spin θ) (t : θ) : Int := s.acquired t - s.released t

def Spin.Owns (s : Spin θ) (t : θ) : Prop := s.released t < s.acquired t

def Pc.acquires : Pc → Bool
  | .exchange _ => true
  | _ => false

/-- The value of an `int` of 32 bits. -/
def int (value : Int) : Int := (value + 2147483648) % 4294967296 - 2147483648

inductive Move (θ : Type*) where
  | call (t : θ) (op : Call)
  | step (t : θ)

def Spin.step (s : Spin θ) (t : θ) : Option (Spin θ) :=
  match s.pc t with
  | .idle _ => none
  | .exchange by_ =>
      -- The exchange succeeds, or fails because the thread has the lock already.
      if s.threadId = none ∨ s.threadId = some t then
        some { s with
          threadId := some t
          acquired := Function.update s.acquired t (s.acquired t + 1)
          pc := Function.update s.pc t (.load by_) }
      else match by_ with
        | .lock => some (s.goto t .spin)
        | .tryLock => some (s.goto t (.idle (some (.tryLocked false))))
  | .spin =>
      if s.threadId = some t ∨ s.threadId = none then some (s.goto t (.exchange .lock))
      else some (s.goto t .spin)
  | .load by_ => some (s.goto t (.store by_ s.count))
  | .store by_ value =>
      some { s with
        count := int (value + 1)
        pc := Function.update s.pc t (.idle (some by_.won)) }
  | .check =>
      if s.threadId = some t then some (s.goto t .loadBack)
      else some (s.goto t (.idle (some .thrown)))
  | .loadBack => some (s.goto t (.storeBack s.count))
  | .storeBack value =>
      if int (value - 1) = 0 then
        some { s with count := int (value - 1), pc := Function.update s.pc t .free }
      else
        some { s with
          count := int (value - 1)
          released := Function.update s.released t (s.released t + 1)
          pc := Function.update s.pc t (.idle (some .unlocked)) }
  | .free =>
      some { s with
        threadId := none
        released := Function.update s.released t (s.released t + 1)
        pc := Function.update s.pc t (.idle (some .unlocked)) }

def run (s : Spin θ) : Move θ → Option (Spin θ)
  | .call t op =>
      match s.pc t with
      | .idle _ => some (s.goto t op.entry)
      | _ => none
  | .step t => s.step t

def spinSystem (θ : Type*) [DecidableEq θ] : System (Spin θ) (Move θ) where
  init s := s = .new
  step before move after := run before move = some after

/-- Fewer than 2^31 acquisitions are nested. -/
def Nested (s : Spin θ) : Move θ → Prop
  | .step t => (s.pc t).acquires → s.nested t + 1 < 2147483648
  | .call _ _ => True

instance (s : Spin θ) (move : Move θ) : Decidable (Nested s move) :=
  match move with
  | .step t => inferInstanceAs (Decidable ((s.pc t).acquires → s.nested t + 1 < 2147483648))
  | .call _ _ => inferInstanceAs (Decidable True)

def Spin.Facts (s : Spin θ) (t : θ) : Prop :=
  match s.pc t with
  | .idle _ | .exchange _ | .spin | .check => s.threadId = some t → s.count = s.nested t
  | .load _ => s.threadId = some t ∧ s.count + 1 = s.nested t
  | .store _ value => s.threadId = some t ∧ s.count + 1 = s.nested t ∧ value = s.count
  | .loadBack => s.threadId = some t ∧ s.count = s.nested t
  | .storeBack value => s.threadId = some t ∧ s.count = s.nested t ∧ value = s.count
  | .free => s.threadId = some t ∧ s.count = 0 ∧ s.nested t = 1

structure Counted (s : Spin θ) : Prop where
  owner : ∀ t, s.threadId = some t ↔ s.Owns t
  ordered : ∀ t, s.released t ≤ s.acquired t
  few : ∀ t, s.nested t < 2147483648
  free : s.threadId = none → s.count = 0
  facts : ∀ t, s.Facts t

variable {s after : Spin θ} {t u : θ}

theorem int_exact {value : Int} (low : -2147483648 ≤ value) (high : value < 2147483648) :
    int value = value := by
  unfold int
  omega

inductive StepOf (s : Spin θ) (t : θ) : Spin θ → Prop where
  | took (by_ : Locking) (at_ : s.pc t = .exchange by_)
      (open_ : s.threadId = none ∨ s.threadId = some t) :
      StepOf s t { s with
        threadId := some t
        acquired := Function.update s.acquired t (s.acquired t + 1)
        pc := Function.update s.pc t (.load by_) }
  | refused (by_ : Locking) (next : Pc) (at_ : s.pc t = .exchange by_)
      (taken : ∃ owner, owner ≠ t ∧ s.threadId = some owner)
      (goes : by_ = .lock ∧ next = .spin ∨
        by_ = .tryLock ∧ next = .idle (some (.tryLocked false))) :
      StepOf s t (s.goto t next)
  | spun (next : Pc) (at_ : s.pc t = .spin) (goes : next = .spin ∨ next = .exchange .lock) :
      StepOf s t (s.goto t next)
  | loaded (by_ : Locking) (at_ : s.pc t = .load by_) : StepOf s t (s.goto t (.store by_ s.count))
  | stored (by_ : Locking) (value : Int) (at_ : s.pc t = .store by_ value) :
      StepOf s t { s with
        count := int (value + 1)
        pc := Function.update s.pc t (.idle (some by_.won)) }
  | checked (at_ : s.pc t = .check) (mine : s.threadId = some t) : StepOf s t (s.goto t .loadBack)
  | threw (at_ : s.pc t = .check) (other : s.threadId ≠ some t) :
      StepOf s t (s.goto t (.idle (some .thrown)))
  | loadedBack (at_ : s.pc t = .loadBack) : StepOf s t (s.goto t (.storeBack s.count))
  | emptied (value : Int) (at_ : s.pc t = .storeBack value) (zero : int (value - 1) = 0) :
      StepOf s t { s with count := int (value - 1), pc := Function.update s.pc t .free }
  | released (value : Int) (at_ : s.pc t = .storeBack value) (some_ : int (value - 1) ≠ 0) :
      StepOf s t { s with
        count := int (value - 1)
        released := Function.update s.released t (s.released t + 1)
        pc := Function.update s.pc t (.idle (some .unlocked)) }
  | freed (at_ : s.pc t = .free) :
      StepOf s t { s with
        threadId := none
        released := Function.update s.released t (s.released t + 1)
        pc := Function.update s.pc t (.idle (some .unlocked)) }

omit [DecidableEq θ] in
theorem taken_by_other (shut : ¬(s.threadId = none ∨ s.threadId = some t)) :
    ∃ owner, owner ≠ t ∧ s.threadId = some owner := by
  rw [not_or] at shut
  obtain ⟨owner, held⟩ := Option.ne_none_iff_exists'.mp shut.1
  refine ⟨owner, ?_, held⟩
  rintro rfl
  exact shut.2 held

theorem step_cases (moved : s.step t = some after) : StepOf s t after := by
  unfold Spin.step at moved
  split at moved
  · cases moved
  · rename_i by_ at_
    split at moved
    · rename_i open_
      cases moved
      exact .took by_ at_ open_
    · rename_i shut
      have taken := taken_by_other shut
      cases by_ with
      | lock =>
          cases moved
          exact .refused _ _ at_ taken (Or.inl ⟨rfl, rfl⟩)
      | tryLock =>
          cases moved
          exact .refused _ _ at_ taken (Or.inr ⟨rfl, rfl⟩)
  · rename_i at_
    split at moved
    · cases moved
      exact .spun _ at_ (Or.inr rfl)
    · cases moved
      exact .spun _ at_ (Or.inl rfl)
  · rename_i by_ at_
    cases moved
    exact .loaded by_ at_
  · rename_i by_ value at_
    cases moved
    exact .stored by_ value at_
  · rename_i at_
    split at moved
    · rename_i mine
      cases moved
      exact .checked at_ mine
    · rename_i other
      cases moved
      exact .threw at_ other
  · rename_i at_
    cases moved
    exact .loadedBack at_
  · rename_i value at_
    split at moved
    · rename_i zero
      cases moved
      exact .emptied value at_ zero
    · rename_i some_
      cases moved
      exact .released value at_ some_
  · rename_i at_
    cases moved
    exact .freed at_

section OneStep

omit [DecidableEq θ] in
theorem owned_nested (counted : Counted s) (mine : s.threadId = some t) : 0 < s.nested t := by
  have owns := (counted.owner t).mp mine
  rw [Spin.Owns] at owns
  rw [Spin.nested]
  omega

end OneStep

section Ownership

omit [DecidableEq θ] in
theorem owns_unique (counted : Counted s) (mine : s.Owns t) (other : s.Owns u) : t = u := by
  have first := (counted.owner t).mpr mine
  have second := (counted.owner u).mpr other
  exact Option.some.inj (first.symm.trans second)

def afterMoves (moves : List (Move θ)) : Option (Spin θ) :=
  moves.foldlM (fun s move => if Nested s move then run s move else none) .new

theorem moves_reachable {moves : List (Move θ)} (ran : (afterMoves moves).isSome) :
    ReachableBy (spinSystem θ) Nested ((afterMoves moves).get ran) :=
  guarded_reachable (fun _ _ _ moved => moved) (.start rfl) (Option.some_get ran).symm

/-- `reentrant_test`: two acquisitions and two releases leave the lock free. -/
example : (afterMoves ([.call true .lock, .step true, .step true, .step true,
    .call true .lock, .step true, .step true, .step true,
    .call true .unlock, .step true, .step true, .step true,
    .call true .unlock, .step true, .step true, .step true, .step true] :
      List (Move Bool))).map (fun s => (s.threadId, s.count)) = some (none, 0) := by
  decide

end Ownership

section Abstraction

/-- The reentrant lock that the fields stand for. -/
def Spin.lock (s : Spin θ) : Lock θ :=
  s.threadId.map (fun t => ⟨t, s.acquired t - s.released t - 1⟩)

theorem spin_refines (counted : Counted s) (step : StepOf s t after) :
    after.lock = s.lock ∨ acquire t s.lock = some after.lock ∨
      release t s.lock = some after.lock := by
  have ordered := counted.ordered t
  have facts := counted.facts t
  have owner := counted.owner t
  cases step with
  | took by_ at_ open_ =>
      right
      left
      rcases open_ with free | mine
      · have outside : ¬s.Owns t := mt owner.mpr (by simp [free])
        have equal : s.acquired t = s.released t := by
          rw [Spin.Owns] at outside
          omega
        simp [Spin.lock, free, acquire, equal]
      · have owns : s.released t < s.acquired t := owner.mp mine
        simp only [Spin.lock, mine, Option.map_some, acquire, if_true, Function.update_self,
          Option.some.injEq, Holding.mk.injEq, true_and]
        omega
  | refused | spun | loaded | stored | checked | threw | loadedBack | emptied => exact Or.inl rfl
  | released value at_ some_ =>
      right
      right
      simp only [Spin.Facts, at_] at facts
      obtain ⟨mine, count, rfl⟩ := facts
      have few := counted.few t
      have owned := owned_nested counted mine
      rw [int_exact (by omega) (by omega), count] at some_
      rw [Spin.nested] at some_ owned
      obtain ⟨again, more⟩ : ∃ again, s.acquired t - s.released t = again + 2 :=
        ⟨s.acquired t - s.released t - 2, by omega⟩
      have less : s.acquired t - (s.released t + 1) = again + 1 := by omega
      simp [Spin.lock, mine, release, more, less]
  | freed at_ =>
      right
      right
      simp only [Spin.Facts, at_, Spin.nested] at facts
      have last : s.acquired t - s.released t = 1 := by omega
      simp [Spin.lock, facts.1, release, last]

end Abstraction

end Npoller.SpinLock
