import Mathlib.Logic.Function.Basic
import Mathlib.Logic.Relation
import Mathlib.Order.Lattice
import Npoller.ReentrantLock
import Npoller.StepSystem

/-!
Transactions that take locks in the order of their addresses, access what the locks
cover one address at a time, and give the locks back. Threads run any transactions
in any interleaving. No threads wait for each other in a cycle, and when none is
running, the store is the one that the same transactions leave one after another.
-/

namespace Npoller.TwoPhaseLocking

open StepSystem ReentrantLock

variable {θ α V R κ : Type*} [DecidableEq θ] [LinearOrder α]

/-- One atomic read and write of an address, with the registers of its thread. -/
structure Access (α V R : Type*) where
  address : α
  act : V → R → V × R

def exec : List (Access α V R) → (α → V) → R → α → V
  | [], store, _ => store
  | access :: rest, store, regs =>
      let out := access.act (store access.address) regs
      exec rest (Function.update store access.address out.1) out.2

/-- `own` are addresses that nobody else knows before the transaction is over. -/
structure Transaction (α V R : Type*) [LinearOrder α] where
  locks : List α
  own : List α
  body : List (Access α V R)
  regs : R
  ordered : locks.Pairwise (· ≤ ·)
  covered : ∀ access ∈ body, access.address ∈ locks ++ own

def Transaction.addresses (tx : Transaction α V R) : List α := tx.locks ++ tx.own

/-- What the transaction does to a store when it runs alone. -/
def Transaction.effect (tx : Transaction α V R) (store : α → V) : α → V :=
  exec tx.body store tx.regs

inductive Phase (α V R : Type*) where
  | locking (taken left : List α)
  | body (rest : List (Access α V R)) (regs : R)
  | unlocking (left : List α)

/-- `order` lists the calls by the moment they had all their locks, `called` what
each thread called. -/
structure Shared (θ α V R κ : Type*) where
  store : α → V
  locks : α → Lock θ
  ready : α → Bool
  known : α → Bool
  running : θ → Option (κ × Phase α V R)
  order : List (θ × κ)
  called : θ → List κ

def Shared.new (store : α → V) (ready : α → Bool) : Shared θ α V R κ :=
  ⟨store, fun _ => none, ready, ready, fun _ => none, [], fun _ => []⟩

inductive Move (θ κ : Type*) where
  | call (t : θ) (c : κ)
  | step (t : θ)

def Shared.goto (s : Shared θ α V R κ) (t : θ) (c : κ) (phase : Phase α V R) : Shared θ α V R κ :=
  { s with running := Function.update s.running t (some (c, phase)) }

/-- A call needs the objects it locks, and storage for those it makes. -/
def Shared.call (tx : κ → Transaction α V R) (s : Shared θ α V R κ) (t : θ) (c : κ) :
    Option (Shared θ α V R κ) :=
  if (s.running t).isNone ∧ (∀ a ∈ (tx c).locks, s.ready a = true) ∧
      ∀ a ∈ (tx c).own, s.known a = false then
    some { s with
      known := fun a => s.known a || decide (a ∈ (tx c).own)
      running := Function.update s.running t (some (c, .locking [] (tx c).locks))
      called := Function.update s.called t (s.called t ++ [c]) }
  else none

def Shared.step (tx : κ → Transaction α V R) (s : Shared θ α V R κ) (t : θ) :
    Option (Shared θ α V R κ) :=
  match s.running t with
  | none => none
  | some (c, .locking taken (a :: left)) =>
      (acquire t (s.locks a)).map (fun lock => { s.goto t c (.locking (taken ++ [a]) left) with
        locks := Function.update s.locks a lock })
  | some (c, .locking _ []) =>
      some { s.goto t c (.body (tx c).body (tx c).regs) with order := s.order ++ [(t, c)] }
  | some (c, .body (access :: rest) regs) =>
      let out := access.act (s.store access.address) regs
      some { s.goto t c (.body rest out.2) with
        store := Function.update s.store access.address out.1 }
  | some (c, .body [] _) => some (s.goto t c (.unlocking (tx c).locks.reverse))
  | some (c, .unlocking (a :: left)) =>
      (release t (s.locks a)).map (fun lock => { s.goto t c (.unlocking left) with
        locks := Function.update s.locks a lock })
  | some (c, .unlocking []) =>
      some { s with
        ready := fun a => s.ready a || decide (a ∈ (tx c).own)
        running := Function.update s.running t none }

def run (tx : κ → Transaction α V R) (s : Shared θ α V R κ) : Move θ κ → Option (Shared θ α V R κ)
  | .call t c => s.call tx t c
  | .step t => s.step tx t

def lockingSystem (θ : Type*) [DecidableEq θ] (tx : κ → Transaction α V R) (store : α → V) :
    System (Shared θ α V R κ) (Move θ κ) where
  init s := ∃ ready, s = .new store ready
  step before move after := run tx before move = some after

/-- The thread's next step takes a lock that another one has. -/
def WaitsFor (s : Shared θ α V R κ) (t u : θ) : Prop :=
  ∃ c taken a left, s.running t = some (c, .locking taken (a :: left)) ∧ u ≠ t ∧
    0 < depth (s.locks a) u

/-- The locks a phase holds. -/
def Phase.held (tx : Transaction α V R) : Phase α V R → List α
  | .locking taken _ => taken
  | .body _ _ => tx.locks
  | .unlocking left => left

def heldBy (tx : κ → Transaction α V R) (s : Shared θ α V R κ) (t : θ) : List α :=
  match s.running t with
  | none => []
  | some (c, phase) => phase.held (tx c)

/-- The call of a thread that has not got all its locks yet. -/
def pending (s : Shared θ α V R κ) (t : θ) : List κ :=
  match s.running t with
  | some (c, .locking _ _) => [c]
  | _ => []

def callsOf (t : θ) (order : List (θ × κ)) : List κ :=
  (order.filter (fun entry => entry.1 = t)).map Prod.snd

/-- The store after the calls ran one after another. -/
def serial (tx : κ → Transaction α V R) (store : α → V) (order : List (θ × κ)) : α → V :=
  order.foldl (fun before entry => (tx entry.2).effect before) store

structure Shaped (tx : Transaction α V R) (phase : Phase α V R) : Prop where
  locking : ∀ taken left, phase = .locking taken left → taken ++ left = tx.locks
  body : ∀ rest regs, phase = .body rest regs → ∀ access ∈ rest, access.address ∈ tx.addresses

structure Consistent (tx : κ → Transaction α V R) (first : α → V) (s : Shared θ α V R κ) :
    Prop where
  depth : ∀ a t, depth (s.locks a) t = (heldBy tx s t).count a
  shaped : ∀ t c phase, s.running t = some (c, phase) → Shaped (tx c) phase
  known : ∀ a, s.ready a = true → s.known a = true
  operands : ∀ t c phase, s.running t = some (c, phase) →
    (∀ a ∈ (tx c).locks, s.ready a = true) ∧
    ∀ a ∈ (tx c).own, s.known a = true ∧ s.ready a = false
  apart : ∀ t u c d phase other, s.running t = some (c, phase) → s.running u = some (d, other) →
    t ≠ u → ∀ a ∈ (tx c).own, a ∉ (tx d).own
  inside : ∀ t c rest regs, s.running t = some (c, .body rest regs) →
    ∀ a ∈ (tx c).addresses, exec rest s.store regs a = serial tx first s.order a
  outside : ∀ a, (∀ t c rest regs, s.running t = some (c, .body rest regs) →
    a ∉ (tx c).addresses) → s.store a = serial tx first s.order a
  calls : ∀ t, callsOf t s.order ++ pending s t = s.called t

variable {tx : κ → Transaction α V R} {first : α → V} {s after : Shared θ α V R κ} {t u : θ}

section Exec

omit [DecidableEq θ]

theorem exec_frame {body : List (Access α V R)} {store : α → V} {regs : R} {a : α}
    (away : ∀ access ∈ body, access.address ≠ a) : exec body store regs a = store a := by
  induction body generalizing store regs with
  | nil => rfl
  | cons access rest ih =>
      rw [exec, ih (fun other member => away other (List.mem_cons_of_mem _ member)),
        Function.update_of_ne (Ne.symm (away access (List.mem_cons_self ..)))]

theorem exec_congr {body : List (Access α V R)} {store other : α → V} {regs : R} {set : List α}
    (covered : ∀ access ∈ body, access.address ∈ set) (agree : ∀ a ∈ set, store a = other a) :
    ∀ a ∈ set, exec body store regs a = exec body other regs a := by
  induction body generalizing store other regs with
  | nil => exact agree
  | cons access rest ih =>
      have same := agree access.address (covered access (List.mem_cons_self ..))
      rw [exec, exec, same]
      apply ih (fun next member => covered next (List.mem_cons_of_mem _ member))
      intro a member
      by_cases here : a = access.address
      · rw [here, Function.update_self, Function.update_self]
      · rw [Function.update_of_ne here, Function.update_of_ne here, agree a member]

theorem effect_frame {tx : Transaction α V R} {store : α → V} {a : α} (away : a ∉ tx.addresses) :
    tx.effect store a = store a := by
  apply exec_frame
  intro access member
  rintro rfl
  exact away (tx.covered access member)

end Exec

section Moves

inductive StepOf (tx : κ → Transaction α V R) (s : Shared θ α V R κ) (t : θ) :
    Shared θ α V R κ → Prop where
  | locked {c : κ} {taken left : List α} {a : α} {lock : Lock θ}
      (at_ : s.running t = some (c, .locking taken (a :: left)))
      (got : acquire t (s.locks a) = some lock) :
      StepOf tx s t { s.goto t c (.locking (taken ++ [a]) left) with
        locks := Function.update s.locks a lock }
  | began {c : κ} {taken : List α} (at_ : s.running t = some (c, .locking taken [])) :
      StepOf tx s t { s.goto t c (.body (tx c).body (tx c).regs) with
        order := s.order ++ [(t, c)] }
  | accessed {c : κ} {access : Access α V R} {rest : List (Access α V R)} {regs : R}
      (at_ : s.running t = some (c, .body (access :: rest) regs)) :
      StepOf tx s t { s.goto t c (.body rest (access.act (s.store access.address) regs).2) with
        store := Function.update s.store access.address
          (access.act (s.store access.address) regs).1 }
  | ended {c : κ} {regs : R} (at_ : s.running t = some (c, .body [] regs)) :
      StepOf tx s t (s.goto t c (.unlocking (tx c).locks.reverse))
  | unlocked {c : κ} {left : List α} {a : α} {lock : Lock θ}
      (at_ : s.running t = some (c, .unlocking (a :: left)))
      (gave : release t (s.locks a) = some lock) :
      StepOf tx s t { s.goto t c (.unlocking left) with locks := Function.update s.locks a lock }
  | returned {c : κ} (at_ : s.running t = some (c, .unlocking [])) :
      StepOf tx s t { s with
        ready := fun a => s.ready a || decide (a ∈ (tx c).own)
        running := Function.update s.running t none }

theorem step_cases (moved : s.step tx t = some after) : StepOf tx s t after := by
  unfold Shared.step at moved
  split at moved
  · cases moved
  · rename_i at_
    obtain ⟨lock, got, rfl⟩ := Option.map_eq_some_iff.mp moved
    exact .locked at_ got
  · rename_i at_
    cases moved
    exact .began at_
  · rename_i at_
    cases moved
    exact .accessed at_
  · rename_i at_
    cases moved
    exact .ended at_
  · rename_i at_
    obtain ⟨lock, gave, rfl⟩ := Option.map_eq_some_iff.mp moved
    exact .unlocked at_ gave
  · rename_i at_
    cases moved
    exact .returned at_

theorem step_others (step : StepOf tx s t after) (apart : u ≠ t) :
    after.running u = s.running u := by
  cases step <;> exact Function.update_of_ne apart _ _

theorem step_called (step : StepOf tx s t after) : after.called = s.called := by
  cases step <;> rfl

end Moves

section Exclusion

theorem held_ready {c : κ} {phase : Phase α V R} (consistent : Consistent tx first s)
    (at_ : s.running t = some (c, phase)) {a : α} (member : a ∈ phase.held (tx c)) :
    0 < depth (s.locks a) t := by
  rw [consistent.depth a t, heldBy, at_]
  exact List.count_pos_iff.mpr member

theorem covered_apart {c d : κ} {phase other : Phase α V R} (consistent : Consistent tx first s)
    (mine : s.running t = some (c, phase)) (theirs : s.running u = some (d, other)) (apart : t ≠ u)
    (full : phase.held (tx c) = (tx c).locks) (fullOther : other.held (tx d) = (tx d).locks)
    {a : α} (member : a ∈ (tx c).addresses) : a ∉ (tx d).addresses := by
  have operands := consistent.operands t c phase mine
  have others := consistent.operands u d other theirs
  intro shared
  rcases List.mem_append.mp member with locked | made
  · rcases List.mem_append.mp shared with both | foreign
    · have first := held_ready consistent mine (full.symm ▸ locked)
      have second := held_ready consistent theirs (fullOther.symm ▸ both)
      exact apart (owner_unique first second)
    · have ready := operands.1 a locked
      rw [(others.2 a foreign).2] at ready
      cases ready
  · rcases List.mem_append.mp shared with foreign | both
    · have ready := others.1 a foreign
      rw [(operands.2 a made).2] at ready
      cases ready
    · exact consistent.apart t u c d phase other mine theirs apart a made both

theorem locking_full {c : κ} {taken : List α} (consistent : Consistent tx first s)
    (at_ : s.running t = some (c, .locking taken [])) : taken = (tx c).locks := by
  have whole := (consistent.shaped t c _ at_).locking taken [] rfl
  rwa [List.append_nil] at whole

end Exclusion

section OneStep

theorem held_others (step : StepOf tx s t after) (apart : u ≠ t) :
    heldBy tx after u = heldBy tx s u := by
  rw [heldBy, step_others step apart, heldBy]

theorem depth_self (consistent : Consistent tx first s) (step : StepOf tx s t after) (a : α) :
    depth (after.locks a) t = (heldBy tx after t).count a := by
  have held := consistent.depth a t
  rw [heldBy] at held
  cases step with
  | @locked c taken left b lock at_ got =>
      rw [at_] at held
      simp only [heldBy, Shared.goto, Function.update_self, Phase.held] at *
      rw [List.count_append, List.count_singleton]
      by_cases here : a = b
      · subst here
        rw [Function.update_self, acquire_self got, held]
        simp
      · rw [Function.update_of_ne here, held]
        simp [Ne.symm here]
  | @began c taken at_ =>
      rw [at_] at held
      simp only [heldBy, Shared.goto, Function.update_self, Phase.held] at *
      rw [held, locking_full consistent at_]
  | accessed at_ =>
      rw [at_] at held
      simpa [heldBy, Shared.goto, Phase.held] using held
  | ended at_ =>
      rw [at_] at held
      simpa [heldBy, Shared.goto, Phase.held] using held
  | @unlocked c left b lock at_ gave =>
      rw [at_] at held
      simp only [heldBy, Shared.goto, Function.update_self, Phase.held] at *
      by_cases here : a = b
      · subst here
        have given := release_self gave
        rw [List.count_cons_self] at held
        rw [Function.update_self]
        omega
      · rw [Function.update_of_ne here, held, List.count_cons_of_ne (Ne.symm here)]
  | returned at_ =>
      rw [at_] at held
      simpa [heldBy, Phase.held] using held

theorem depth_others (step : StepOf tx s t after) (apart : u ≠ t) (a : α) :
    depth (after.locks a) u = depth (s.locks a) u := by
  cases step with
  | @locked c taken left b lock at_ got =>
      by_cases here : a = b
      · subst here
        simp only [Function.update_self]
        exact acquire_other got apart
      · simp only [Function.update_of_ne here]
  | @unlocked c left b lock at_ gave =>
      by_cases here : a = b
      · subst here
        simp only [Function.update_self]
        exact release_other gave apart
      · simp only [Function.update_of_ne here]
  | began | accessed | ended | returned => rfl

theorem depth_step (consistent : Consistent tx first s) (step : StepOf tx s t after) (a : α) (u : θ) :
    depth (after.locks a) u = (heldBy tx after u).count a := by
  by_cases mine : u = t
  · subst mine
    exact depth_self consistent step a
  · rw [depth_others step mine, held_others step mine]
    exact consistent.depth a u

theorem shaped_step (consistent : Consistent tx first s) (step : StepOf tx s t after) {c : κ}
    {phase : Phase α V R} (at_ : after.running t = some (c, phase)) : Shaped (tx c) phase := by
  cases step with
  | locked before _ =>
      simp only [Shared.goto, Function.update_self] at at_
      cases at_
      have shaped := consistent.shaped t _ _ before
      refine ⟨?_, nofun⟩
      rintro taken left ⟨rfl, rfl⟩
      rw [List.append_assoc]
      exact shaped.locking _ _ rfl
  | began before =>
      simp only [Shared.goto, Function.update_self] at at_
      cases at_
      refine ⟨nofun, ?_⟩
      rintro rest regs ⟨rfl, rfl⟩
      exact (tx c).covered
  | accessed before =>
      simp only [Shared.goto, Function.update_self] at at_
      cases at_
      have shaped := consistent.shaped t _ _ before
      refine ⟨nofun, ?_⟩
      rintro rest regs ⟨rfl, rfl⟩ access member
      exact shaped.body _ _ rfl access (List.mem_cons_of_mem _ member)
  | ended | unlocked =>
      simp only [Shared.goto, Function.update_self] at at_
      cases at_
      exact ⟨nofun, nofun⟩
  | returned before =>
      simp only [Function.update_self] at at_
      cases at_

theorem step_call (step : StepOf tx s t after) {c : κ} {phase : Phase α V R}
    (at_ : after.running t = some (c, phase)) : ∃ before, s.running t = some (c, before) := by
  cases step with
  | locked before | began before | accessed before | ended before | unlocked before =>
      simp only [Shared.goto, Function.update_self] at at_
      cases at_
      exact ⟨_, before⟩
  | returned before =>
      simp only [Function.update_self] at at_
      cases at_

theorem running_before (step : StepOf tx s t after) {c : κ} {phase : Phase α V R}
    (at_ : after.running u = some (c, phase)) : ∃ before, s.running u = some (c, before) := by
  by_cases mine : u = t
  · subst mine
    exact step_call step at_
  · rw [step_others step mine] at at_
    exact ⟨phase, at_⟩

theorem operands_step (consistent : Consistent tx first s) (step : StepOf tx s t after) {c : κ}
    {phase : Phase α V R} (at_ : after.running u = some (c, phase)) :
    (∀ a ∈ (tx c).locks, after.ready a = true) ∧
    ∀ a ∈ (tx c).own, after.known a = true ∧ after.ready a = false := by
  obtain ⟨before, running⟩ := running_before step at_
  have operands := consistent.operands u c before running
  cases step with
  | locked | began | accessed | ended | unlocked => exact operands
  | @returned d at_ =>
      have apart : u ≠ t := by
        rintro rfl
        simp at at_
      refine ⟨fun a member => by simp [operands.1 a member], ?_⟩
      intro a member
      have foreign := consistent.apart u t c d _ _ running ‹_› apart a member
      simp [(operands.2 a member).1, (operands.2 a member).2, foreign]

omit [DecidableEq θ] in
theorem serial_append (order : List (θ × κ)) (t : θ) (c : κ) :
    serial tx first (order ++ [(t, c)]) = (tx c).effect (serial tx first order) := by
  rw [serial, List.foldl_append]
  rfl

theorem found_serial {c : κ} {taken : List α} (consistent : Consistent tx first s)
    (at_ : s.running t = some (c, .locking taken [])) {a : α} (member : a ∈ (tx c).addresses) :
    s.store a = serial tx first s.order a := by
  apply consistent.outside a
  intro u d rest regs running
  have apart : t ≠ u := by
    rintro rfl
    rw [at_] at running
    cases running
  exact covered_apart consistent at_ running apart (locking_full consistent at_) rfl member

theorem inside_self (consistent : Consistent tx first s) (step : StepOf tx s t after) {c : κ}
    {rest : List (Access α V R)} {regs : R} (at_ : after.running t = some (c, .body rest regs)) :
    ∀ a ∈ (tx c).addresses, exec rest after.store regs a = serial tx first after.order a := by
  cases step with
  | began before =>
      simp only [Shared.goto, Function.update_self] at *
      cases at_
      intro a member
      rw [serial_append]
      exact exec_congr (tx c).covered (fun b known => found_serial consistent before known) a member
  -- What has been done and what is left make the same effect as before.
  | accessed before =>
      simp only [Shared.goto, Function.update_self] at *
      cases at_
      exact consistent.inside t _ _ _ before
  | locked | ended | unlocked | returned => simp [Shared.goto] at at_

theorem inside_others (consistent : Consistent tx first s) (step : StepOf tx s t after) {c : κ}
    {rest : List (Access α V R)} {regs : R} (apart : u ≠ t)
    (at_ : s.running u = some (c, .body rest regs)) :
    ∀ a ∈ (tx c).addresses, exec rest after.store regs a = serial tx first after.order a := by
  have inside := consistent.inside u c rest regs at_
  cases step with
  | locked | ended | unlocked | returned => exact inside
  | @began d taken before =>
      intro a member
      have foreign := covered_apart consistent at_ before apart rfl (locking_full consistent before)
        member
      rw [serial_append, effect_frame foreign]
      exact inside a member
  | @accessed d access others regs' before =>
      intro a member
      have covers := (consistent.shaped t _ _ before).body _ _ rfl access (List.mem_cons_self ..)
      have shaped := (consistent.shaped u _ _ at_).body rest regs rfl
      refine (exec_congr shaped ?_ a member).trans (inside a member)
      intro b known
      have foreign := covered_apart consistent at_ before apart rfl rfl known
      apply Function.update_of_ne
      rintro rfl
      exact foreign covers

theorem inside_step (consistent : Consistent tx first s) (step : StepOf tx s t after) {c : κ}
    {rest : List (Access α V R)} {regs : R} (at_ : after.running u = some (c, .body rest regs)) :
    ∀ a ∈ (tx c).addresses, exec rest after.store regs a = serial tx first after.order a := by
  by_cases mine : u = t
  · subst mine
    exact inside_self consistent step at_
  · rw [step_others step mine] at at_
    exact inside_others consistent step mine at_

theorem outside_step (consistent : Consistent tx first s) (step : StepOf tx s t after) {a : α}
    (away : ∀ u c rest regs, after.running u = some (c, .body rest regs) → a ∉ (tx c).addresses) :
    after.store a = serial tx first after.order a := by
  -- Bodies of other threads run on, so the address is outside them before the step too.
  have others : ∀ u, u ≠ t → ∀ c rest regs, s.running u = some (c, .body rest regs) →
      a ∉ (tx c).addresses := by
    intro u apart c rest regs running
    rw [← step_others step apart] at running
    exact away u c rest regs running
  have quiet : (∀ c rest regs, s.running t = some (c, .body rest regs) → a ∉ (tx c).addresses) →
      s.store a = serial tx first s.order a := by
    intro mine
    apply consistent.outside a
    intro u
    by_cases same : u = t
    · rw [same]
      exact mine
    · exact others u same
  cases step with
  | locked before | unlocked before | returned before =>
      apply quiet
      intro c rest regs running
      rw [before] at running
      cases running
  | @began c taken before =>
      have foreign := away t c (tx c).body (tx c).regs (Function.update_self ..)
      rw [serial_append, effect_frame foreign]
      apply quiet
      intro d rest regs running
      rw [before] at running
      cases running
  | @accessed c access rest regs before =>
      have foreign := away t c rest _ (Function.update_self ..)
      have covers := (consistent.shaped t _ _ before).body _ _ rfl access (List.mem_cons_self ..)
      have elsewhere : a ≠ access.address := by
        rintro rfl
        exact foreign covers
      refine (Function.update_of_ne elsewhere _ _).trans (quiet ?_)
      intro d others' regs' running
      rw [before] at running
      cases running
      exact foreign
  | @ended c regs before =>
      by_cases member : a ∈ (tx c).addresses
      · exact consistent.inside t c [] regs before a member
      · apply quiet
        intro d rest regs' running
        rw [before] at running
        cases running
        exact member

theorem calls_step (consistent : Consistent tx first s) (step : StepOf tx s t after) (u : θ) :
    callsOf u after.order ++ pending after u = after.called u := by
  rw [step_called step, ← consistent.calls u]
  by_cases mine : u = t
  · subst mine
    cases step with
    | locked at_ | accessed at_ | ended at_ | unlocked at_ | returned at_ =>
        simp [pending, Shared.goto, at_]
    | began at_ => simp [pending, Shared.goto, at_, callsOf]
  · have same : pending after u = pending s u := by rw [pending, step_others step mine, pending]
    rw [same]
    cases step with
    | began at_ => simp [callsOf, Ne.symm mine]
    | locked | accessed | ended | unlocked | returned => rfl

theorem consistent_step (consistent : Consistent tx first s) (step : StepOf tx s t after) :
    Consistent tx first after := by
  constructor
  · exact depth_step consistent step
  · intro u c phase at_
    by_cases mine : u = t
    · subst mine
      exact shaped_step consistent step at_
    · rw [step_others step mine] at at_
      exact consistent.shaped u c phase at_
  · intro a ready
    cases step with
    | locked | began | accessed | ended | unlocked => exact consistent.known a ready
    | @returned c at_ =>
        simp only [Bool.or_eq_true, decide_eq_true_eq] at ready
        rcases ready with old | made
        · exact consistent.known a old
        · exact ((consistent.operands t c _ at_).2 a made).1
  · intro u c phase at_
    exact operands_step consistent step at_
  · intro v u c d phase other mine theirs apart
    obtain ⟨before, running⟩ := running_before step mine
    obtain ⟨beforeOther, runningOther⟩ := running_before step theirs
    exact consistent.apart v u c d before beforeOther running runningOther apart
  · intro u c rest regs at_
    exact inside_step consistent step at_
  · intro a away
    exact outside_step consistent step away
  · exact calls_step consistent step

end OneStep

section Calls

structure CallOf (tx : κ → Transaction α V R) (s : Shared θ α V R κ) (t : θ) (c : κ)
    (after : Shared θ α V R κ) : Prop where
  idle : s.running t = none
  operands : ∀ a ∈ (tx c).locks, s.ready a = true
  fresh : ∀ a ∈ (tx c).own, s.known a = false
  entered : after.running t = some (c, .locking [] (tx c).locks)
  others : ∀ u, u ≠ t → after.running u = s.running u ∧ after.called u = s.called u
  called : after.called t = s.called t ++ [c]
  known : ∀ a, after.known a = (s.known a || decide (a ∈ (tx c).own))
  same : after.store = s.store ∧ after.locks = s.locks ∧ after.ready = s.ready ∧
    after.order = s.order

variable {c : κ}

theorem call_cases (called : s.call tx t c = some after) : CallOf tx s t c after := by
  unfold Shared.call at called
  split at called
  · rename_i guard
    cases called
    refine ⟨Option.isNone_iff_eq_none.mp guard.1, guard.2.1, guard.2.2, ?_, ?_, ?_, fun _ => rfl,
      rfl, rfl, rfl, rfl⟩
    · exact Function.update_self ..
    · intro u apart
      exact ⟨Function.update_of_ne apart _ _, Function.update_of_ne apart _ _⟩
    · exact Function.update_self ..
  · cases called

theorem call_running (call : CallOf tx s t c after) {d : κ} {phase : Phase α V R}
    (running : after.running u = some (d, phase)) :
    u = t ∧ d = c ∧ phase = .locking [] (tx c).locks ∨ u ≠ t ∧ s.running u = some (d, phase) := by
  by_cases mine : u = t
  · subst mine
    rw [call.entered] at running
    cases running
    exact Or.inl ⟨rfl, rfl, rfl⟩
  · rw [(call.others u mine).1] at running
    exact Or.inr ⟨mine, running⟩

theorem call_bodies (call : CallOf tx s t c after) {d : κ} {rest : List (Access α V R)} {regs : R} :
    after.running u = some (d, .body rest regs) ↔ s.running u = some (d, .body rest regs) := by
  by_cases mine : u = t
  · subst mine
    rw [call.entered, call.idle]
    constructor <;> nofun
  · rw [(call.others u mine).1]

theorem call_operands (consistent : Consistent tx first s) (call : CallOf tx s t c after) {d : κ}
    {phase : Phase α V R} (running : after.running u = some (d, phase)) :
    (∀ a ∈ (tx d).locks, after.ready a = true) ∧
    ∀ a ∈ (tx d).own, after.known a = true ∧ after.ready a = false := by
  obtain ⟨_, _, ready, _⟩ := call.same
  rw [ready]
  rcases call_running call running with ⟨rfl, rfl, rfl⟩ | ⟨_, before⟩
  · refine ⟨call.operands, ?_⟩
    intro a member
    refine ⟨by simp [call.known, member], ?_⟩
    cases made : s.ready a with
    | false => rfl
    | true => exact absurd ((consistent.known a made).symm.trans (call.fresh a member)) (by decide)
  · have operands := consistent.operands u d phase before
    exact ⟨operands.1, fun a member =>
      ⟨by simp [call.known, (operands.2 a member).1], (operands.2 a member).2⟩⟩

theorem call_apart (consistent : Consistent tx first s) (call : CallOf tx s t c after) {v : θ}
    {d e : κ} {phase other : Phase α V R} (mine : after.running u = some (d, phase))
    (theirs : after.running v = some (e, other)) (apart : u ≠ v) :
    ∀ a ∈ (tx d).own, a ∉ (tx e).own := by
  intro a member foreign
  -- Storage for a new object is not the storage of one under construction.
  have unknown : ∀ {w : θ} {f : κ} {old : Phase α V R}, s.running w = some (f, old) →
      a ∈ (tx f).own → a ∈ (tx c).own → False := by
    intro w f old running made new
    have known := ((consistent.operands w f old running).2 a made).1
    rw [call.fresh a new] at known
    cases known
  rcases call_running call mine with ⟨rfl, rfl, _⟩ | ⟨_, before⟩
  · rcases call_running call theirs with ⟨rfl, _⟩ | ⟨_, beforeOther⟩
    · exact apart rfl
    · exact unknown beforeOther foreign member
  · rcases call_running call theirs with ⟨rfl, rfl, _⟩ | ⟨_, beforeOther⟩
    · exact unknown before member foreign
    · exact consistent.apart u v d e phase other before beforeOther apart a member foreign

theorem consistent_call (consistent : Consistent tx first s) (call : CallOf tx s t c after) :
    Consistent tx first after := by
  obtain ⟨store, locks, ready, order⟩ := call.same
  constructor
  · intro a u
    rw [locks, consistent.depth a u]
    by_cases mine : u = t
    · subst mine
      rw [heldBy, heldBy, call.idle, call.entered]
      rfl
    · rw [heldBy, heldBy, (call.others u mine).1]
  · intro u d phase running
    rcases call_running call running with ⟨rfl, rfl, rfl⟩ | ⟨_, before⟩
    · refine ⟨?_, nofun⟩
      rintro taken left ⟨rfl, rfl⟩
      rfl
    · exact consistent.shaped u d phase before
  · intro a made
    rw [ready] at made
    simp [call.known, consistent.known a made]
  · intro u d phase running
    exact call_operands consistent call running
  · intro u v d e phase other mine theirs apart
    exact call_apart consistent call mine theirs apart
  · intro u d rest regs running
    rw [store, order]
    exact consistent.inside u d rest regs ((call_bodies call).mp running)
  · intro a away
    rw [store, order]
    apply consistent.outside a
    intro u d rest regs running
    exact away u d rest regs ((call_bodies call).mpr running)
  · intro u
    have calls := consistent.calls u
    rw [order]
    by_cases mine : u = t
    · subst mine
      rw [pending, call.idle, List.append_nil] at calls
      rw [pending, call.entered, call.called, calls]
    · rw [pending, (call.others u mine).1, (call.others u mine).2]
      exact calls

end Calls

section Runs

theorem new_consistent (ready : α → Bool) :
    Consistent tx first (Shared.new first ready : Shared θ α V R κ) := by
  constructor
  · intro a t
    rfl
  · intro t c phase running
    cases running
  · intro a known
    exact known
  · intro t c phase running
    cases running
  · intro t u c d phase other running
    cases running
  · intro t c rest regs running
    cases running
  · intro a _
    rfl
  · intro t
    rfl

theorem reachable_consistent (reached : Reachable (lockingSystem θ tx first) s) :
    Consistent tx first s := by
  have starts : ∀ state, (lockingSystem θ tx first).init state → Consistent tx first state := by
    rintro state ⟨ready, rfl⟩
    exact new_consistent ready
  apply invariant starts _ reached
  intro before move after consistent _ moved
  cases move with
  | call t c => exact consistent_call consistent (call_cases moved)
  | step t => exact consistent_step consistent (step_cases moved)

def Wants (s : Shared θ α V R κ) (t : θ) (a : α) : Prop :=
  ∃ c taken left, s.running t = some (c, .locking taken (a :: left))

theorem held_below (consistent : Consistent tx first s) {a b : α} (wants : Wants s t b)
    (has : 0 < depth (s.locks a) t) : a ≤ b := by
  obtain ⟨c, taken, left, at_⟩ := wants
  rw [consistent.depth a t, heldBy, at_, List.count_pos_iff] at has
  have whole := (consistent.shaped t c _ at_).locking taken (b :: left) rfl
  have ordered := (tx c).ordered
  rw [← whole, List.pairwise_append] at ordered
  exact ordered.2.2 a has b (List.mem_cons_self ..)

theorem wants_grow (consistent : Consistent tx first s) {a b : α} (wants : Wants s t a)
    (next : Wants s u b) (waits : WaitsFor s t u) (waitsOn : ∃ v, WaitsFor s u v) : a < b := by
  obtain ⟨c, taken, left, at_⟩ := wants
  obtain ⟨_, _, held, _, running, apart, has⟩ := waits
  rw [at_] at running
  cases running
  apply lt_of_le_of_ne (held_below consistent next has)
  rintro rfl
  -- Both want one lock; then the second has it and waits for nobody.
  obtain ⟨d, taken, left, second⟩ := next
  obtain ⟨v, _, _, _, _, running, other, hasOther⟩ := waitsOn
  rw [second] at running
  cases running
  exact other (owner_unique hasOther has)

theorem chain_grows (consistent : Consistent tx first s) (chain : Relation.TransGen (WaitsFor s) t u)
    {a b : α} (wants : Wants s t a) (next : Wants s u b) (waitsOn : ∃ v, WaitsFor s u v) :
    a < b := by
  induction chain generalizing b with
  | single waits => exact wants_grow consistent wants next waits waitsOn
  | tail _ waits ih =>
      obtain ⟨d, taken, middle, left, running, _⟩ := id waits
      have inner : Wants s _ middle := ⟨d, taken, left, running⟩
      exact lt_trans (ih inner ⟨_, waits⟩) (wants_grow consistent inner next waits waitsOn)

theorem no_waiting_cycle (reached : Reachable (lockingSystem θ tx first) s) (t : θ) :
    ¬Relation.TransGen (WaitsFor s) t t := by
  have consistent := reachable_consistent reached
  intro cycle
  obtain ⟨u, waits⟩ : ∃ u, WaitsFor s t u := by
    cases Relation.TransGen.head'_iff.mp cycle with
    | intro u found => exact ⟨u, found.1⟩
  obtain ⟨c, taken, a, left, running, _⟩ := id waits
  have wants : Wants s t a := ⟨c, taken, left, running⟩
  exact lt_irrefl a (chain_grows consistent cycle wants wants ⟨u, waits⟩)

theorem quiet_serial (reached : Reachable (lockingSystem θ tx first) s)
    (quiet : ∀ t, s.running t = none) :
    (∀ t, callsOf t s.order = s.called t) ∧ s.store = serial tx first s.order := by
  have consistent := reachable_consistent reached
  constructor
  · intro t
    have calls := consistent.calls t
    rwa [pending, quiet t, List.append_nil] at calls
  · funext a
    apply consistent.outside a
    intro t c rest regs running
    rw [quiet t] at running
    cases running

theorem unlock_owned (reached : Reachable (lockingSystem θ tx first) s) {c : κ} {a : α}
    {left : List α} (at_ : s.running t = some (c, .unlocking (a :: left))) :
    (release t (s.locks a)).isSome := by
  have consistent := reachable_consistent reached
  have has := held_ready consistent at_ (List.mem_cons_self ..)
  rw [Option.isSome_iff_ne_none, Ne, release_refused]
  exact Nat.ne_of_gt has

theorem steps_or_waits (reached : Reachable (lockingSystem θ tx first) s) {c : κ}
    {phase : Phase α V R} (at_ : s.running t = some (c, phase)) :
    (s.step tx t).isSome ∨ ∃ u, WaitsFor s t u := by
  cases phase with
  | locking taken left =>
      cases left with
      | nil => simp [Shared.step, at_]
      | cons a left =>
          cases got : acquire t (s.locks a) with
          | none =>
              obtain ⟨u, apart, has⟩ := acquire_refused.mp got
              exact Or.inr ⟨u, c, taken, a, left, at_, apart, has⟩
          | some lock => simp [Shared.step, at_, got]
  | body rest regs => cases rest <;> simp [Shared.step, at_]
  | unlocking left =>
      cases left with
      | nil => simp [Shared.step, at_]
      | cons a left =>
          have gave := unlock_owned reached at_
          simp [Shared.step, at_, gave]

def afterMoves (tx : κ → Transaction α V R) (store : α → V) (ready : α → Bool)
    (moves : List (Move θ κ)) : Option (Shared θ α V R κ) :=
  moves.foldlM (run tx) (.new store ready)

theorem moves_reachable {store : α → V} {ready : α → Bool} {moves : List (Move θ κ)}
    (ran : (afterMoves tx store ready moves).isSome) :
    Reachable (lockingSystem θ tx store) ((afterMoves tx store ready moves).get ran) :=
  fold_reachable (fun _ _ _ moved => ⟨trivial, moved⟩) (.start ⟨ready, rfl⟩)
    (Option.some_get ran).symm

end Runs

end Npoller.TwoPhaseLocking
