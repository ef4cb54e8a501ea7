import Mathlib.Logic.Function.Basic

/-!
Labelled step systems. `ReachableBy` restricts a run to steps that meet a
condition on the state before the step and its label; `Reachable` does not. An
invariant holds at the start and is kept by each step; it may use earlier ones. A
`family` is any number of components, each started at some time of the run. A run of
one system that a view turns into a run of another one has what holds of the other.
-/

namespace Npoller.StepSystem

universe u v
variable {σ : Type u} {ι : Type v}

structure System (σ : Type u) (ι : Type v) where
  init : σ → Prop
  step : σ → ι → σ → Prop

variable {sys : System σ ι} {allowed : σ → ι → Prop}

inductive ReachableBy (sys : System σ ι) (allowed : σ → ι → Prop) : σ → Prop where
  | start {state : σ} (begins : sys.init state) : ReachableBy sys allowed state
  | next {before after : σ} {label : ι} (reached : ReachableBy sys allowed before)
      (meets : allowed before label) (moves : sys.step before label after) :
      ReachableBy sys allowed after

abbrev Reachable (sys : System σ ι) : σ → Prop := ReachableBy sys (fun _ _ => True)

theorem reachable_next {before after : σ} {label : ι} (reached : Reachable sys before)
    (moves : sys.step before label after) : Reachable sys after :=
  .next reached trivial moves

theorem reachable_mono {wider : σ → ι → Prop} {state : σ}
    (more : ∀ before label, allowed before label → wider before label)
    (reached : ReachableBy sys allowed state) : ReachableBy sys wider state := by
  induction reached with
  | start begins => exact .start begins
  | next _ meets moves ih => exact .next ih (more _ _ meets) moves

theorem reachable_of_allowed {state : σ} (reached : ReachableBy sys allowed state) :
    Reachable sys state := reachable_mono (fun _ _ _ => trivial) reached

theorem invariant {inv : σ → Prop} (starts : ∀ state, sys.init state → inv state)
    (keeps : ∀ before label after, inv before → allowed before label →
      sys.step before label after → inv after)
    {state : σ} (reached : ReachableBy sys allowed state) : inv state := by
  induction reached with
  | start begins => exact starts _ begins
  | next _ meets moves ih => exact keeps _ _ _ ih meets moves

theorem fold_reachable {run : σ → ι → Option σ}
    (steps : ∀ before label after, run before label = some after →
      allowed before label ∧ sys.step before label after)
    {labels : List ι} {state after : σ} (reached : ReachableBy sys allowed state)
    (ran : labels.foldlM run state = some after) : ReachableBy sys allowed after := by
  induction labels generalizing state with
  | nil =>
      cases ran
      exact reached
  | cons label labels ih =>
      rw [List.foldlM_cons] at ran
      cases moved : run state label with
      | none =>
          rw [moved] at ran
          cases ran
      | some next =>
          rw [moved] at ran
          obtain ⟨meets, moves⟩ := steps _ _ _ moved
          exact ih (.next reached meets moves) ran

theorem guarded_reachable [∀ state label, Decidable (allowed state label)]
    {run : σ → ι → Option σ}
    (steps : ∀ before label after, run before label = some after → sys.step before label after)
    {labels : List ι} {state after : σ} (reached : ReachableBy sys allowed state)
    (ran : labels.foldlM (fun s label => if allowed s label then run s label else none) state =
      some after) : ReachableBy sys allowed after := by
  apply fold_reachable _ reached ran
  intro before label next moved
  by_cases meets : allowed before label
  · rw [if_pos meets] at moved
    exact ⟨meets, steps before label next moved⟩
  · rw [if_neg meets] at moved
    cases moved

theorem simulated {τ κ : Type*} {other : System τ κ} {permitted : τ → κ → Prop} (view : σ → τ)
    (starts : ∀ state, sys.init state → other.init (view state))
    (steps : ∀ before label after, allowed before label → sys.step before label after →
      ∃ seen, permitted (view before) seen ∧ other.step (view before) seen (view after))
    {state : σ} (reached : ReachableBy sys allowed state) :
    ReachableBy other permitted (view state) := by
  induction reached with
  | start begins => exact .start (starts _ begins)
  | next _ meets moves ih =>
      obtain ⟨seen, permits, moved⟩ := steps _ _ _ meets moves
      exact .next ih permits moved

section Families
variable {κ : Type*} [DecidableEq κ]

/-- The label `(k, none)` starts the component `k`. -/
def family (sys : System σ ι) (κ : Type*) [DecidableEq κ] : System (κ → Option σ) (κ × Option ι) where
  init state := ∀ k, state k = none
  step before label after := match label with
    | (k, none) => before k = none ∧ ∃ new, sys.init new ∧ after = Function.update before k (some new)
    | (k, some label) => ∃ now next, before k = some now ∧ sys.step now label next ∧
        after = Function.update before k (some next)

/-- Each step of a component meets the condition in the state of the component. -/
def Each (allowed : σ → ι → Prop) (state : κ → Option σ) : κ × Option ι → Prop
  | (_, none) => True
  | (k, some label) => ∀ now, state k = some now → allowed now label

theorem component_reachable {state : κ → Option σ} {k : κ} {now : σ}
    (reached : ReachableBy (family sys κ) (Each allowed) state) (here : state k = some now) :
    ReachableBy sys allowed now := by
  induction reached generalizing now with
  | start begins =>
      rw [begins k] at here
      cases here
  | @next before after label reached meets moves ih =>
      obtain ⟨moving, _ | label⟩ := label
      · obtain ⟨_, new, begins, rfl⟩ := moves
        by_cases same : k = moving
        · subst same
          rw [Function.update_self] at here
          cases here
          exact .start begins
        · rw [Function.update_of_ne same] at here
          exact ih here
      · obtain ⟨earlier, next, found, moved, rfl⟩ := moves
        by_cases same : k = moving
        · subst same
          rw [Function.update_self] at here
          cases here
          exact .next (ih found) (meets earlier found) moved
        · rw [Function.update_of_ne same] at here
          exact ih here

theorem single_reachable {now : σ} (reached : ReachableBy sys allowed now) :
    ReachableBy (family sys Unit) (Each allowed) (fun _ => some now) := by
  induction reached with
  | @start state begins =>
      have free : Each allowed (fun _ : Unit => none) ((), none) := trivial
      exact .next (.start (fun _ => rfl)) free ⟨rfl, state, begins, rfl⟩
  | @next before after label _ meets moves ih =>
      have allowedHere : Each allowed (fun _ : Unit => some before) ((), some label) := by
        rintro _ ⟨rfl⟩
        exact meets
      exact .next ih allowedHere ⟨before, after, rfl, moves, rfl⟩

end Families

end Npoller.StepSystem
