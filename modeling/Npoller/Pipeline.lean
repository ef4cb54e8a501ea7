import Mathlib.Data.List.Nodup
import Npoller.StepSystem

/-!
A chain of queues. Items enter at its first stage, a step takes any number of them
from the front of one stage to the back of the next one, and items leave from the
front of the last stage. In every run the items that left, followed by those in the
chain from its last stage to its first, are the ones that entered.
-/

namespace Npoller.Pipeline

open StepSystem

universe u v
variable {κ : Type u} {α : Type v} [DecidableEq κ]

structure Pipe (κ : Type u) (α : Type v) where
  held : κ → List α
  entered : List α
  left : List α

inductive Move (κ : Type u) (α : Type v) where
  | enter (stage : κ) (items : List α)
  | pass (source target : κ) (count : Nat)
  | leave (stage : κ) (count : Nat)
  | idle

def Move.Fits (chain : List κ) : Move κ α → Prop
  | .enter stage _ => ∃ later, chain = stage :: later
  | .pass source target _ => ∃ front back, chain = front ++ source :: target :: back
  | .leave stage _ => ∃ earlier, chain = earlier ++ [stage]
  | .idle => True

def Move.held (held : κ → List α) : Move κ α → κ → List α
  | .enter stage items => Function.update held stage (held stage ++ items)
  | .pass source target count =>
      Function.update (Function.update held source ((held source).drop count)) target
        (held target ++ (held source).take count)
  | .leave stage count => Function.update held stage ((held stage).drop count)
  | .idle => held

def Move.entering : Move κ α → List α
  | .enter _ items => items
  | _ => []

def Move.leaving (held : κ → List α) : Move κ α → List α
  | .leave stage count => (held stage).take count
  | _ => []

structure Moves (chain : List κ) (before : Pipe κ α) (move : Move κ α) (after : Pipe κ α) :
    Prop where
  fits : move.Fits chain
  held : ∀ stage ∈ chain, after.held stage = move.held before.held stage
  entered : after.entered = before.entered ++ move.entering
  left : after.left = before.left ++ move.leaving before.held

def pipeline (chain : List κ) : System (Pipe κ α) (Move κ α) where
  init state := (∀ stage ∈ chain, state.held stage = []) ∧ state.entered = [] ∧ state.left = []
  step := Moves chain

/-- What the chain holds, in the order in which it will leave. -/
def inFlight (held : κ → List α) : List κ → List α
  | [] => []
  | stage :: later => inFlight held later ++ held stage

variable {chain : List κ} {held other : κ → List α} {before after : Pipe κ α} {move : Move κ α}

omit [DecidableEq κ] in
theorem in_flight_append (front back : List κ) :
    inFlight held (front ++ back) = inFlight held back ++ inFlight held front := by
  induction front with
  | nil => exact (List.append_nil _).symm
  | cons stage front ih => rw [List.cons_append, inFlight, inFlight, ih, List.append_assoc]

omit [DecidableEq κ] in
theorem in_flight_congr (same : ∀ stage ∈ chain, other stage = held stage) :
    inFlight other chain = inFlight held chain := by
  induction chain with
  | nil => rfl
  | cons stage later ih =>
      rw [inFlight, inFlight, same stage (List.mem_cons_self ..)]
      exact congrArg (· ++ _) (ih (fun next member => same next (List.mem_cons_of_mem _ member)))

omit [DecidableEq κ] in
theorem in_flight_empty (none_ : ∀ stage ∈ chain, held stage = []) : inFlight held chain = [] := by
  induction chain with
  | nil => rfl
  | cons stage later ih =>
      rw [inFlight, none_ stage (List.mem_cons_self ..), List.append_nil]
      exact ih (fun next member => none_ next (List.mem_cons_of_mem _ member))

theorem in_flight_update (stage : κ) (items : List α) (absent : stage ∉ chain) :
    inFlight (Function.update held stage items) chain = inFlight held chain := by
  apply in_flight_congr
  intro next member
  have different : next ≠ stage := by
    rintro rfl
    exact absent member
  exact Function.update_of_ne different _ _

/-- One move keeps the order of all items: those that leave come off the end of the
chain, those that enter come behind all of them. -/
theorem move_accounts (distinct : chain.Nodup) (fits : move.Fits chain) :
    move.leaving held ++ inFlight (move.held held) chain =
      inFlight held chain ++ move.entering := by
  cases move with
  | enter stage items =>
      obtain ⟨later, rfl⟩ := fits
      have absent : stage ∉ later := (List.nodup_cons.mp distinct).1
      simp only [Move.leaving, Move.held, Move.entering, inFlight, in_flight_update _ _ absent,
        Function.update_self, List.nil_append, List.append_assoc]
  | pass source target count =>
      obtain ⟨front, back, rfl⟩ := fits
      have split := List.nodup_append.mp distinct
      have tail := List.nodup_cons.mp split.2.1
      have apart : source ≠ target := fun same => tail.1 (same ▸ List.mem_cons_self ..)
      have sourceBack : source ∉ back := fun inside => tail.1 (List.mem_cons_of_mem _ inside)
      have targetBack : target ∉ back := (List.nodup_cons.mp tail.2).1
      have sourceFront : source ∉ front := fun inside =>
        split.2.2 source inside source (List.mem_cons_self ..) rfl
      have targetFront : target ∉ front := fun inside =>
        split.2.2 target inside target (List.mem_cons_of_mem _ (List.mem_cons_self ..)) rfl
      simp only [Move.leaving, Move.held, Move.entering, in_flight_append, inFlight,
        in_flight_update _ _ sourceBack, in_flight_update _ _ targetBack,
        in_flight_update _ _ sourceFront, in_flight_update _ _ targetFront,
        Function.update_self, Function.update_of_ne apart, List.nil_append, List.append_nil,
        List.append_assoc]
      -- the items that pass only change the stage they are listed under
      rw [← List.append_assoc ((held source).take count), List.take_append_drop]
  | leave stage count =>
      obtain ⟨earlier, rfl⟩ := fits
      have absent : stage ∉ earlier := fun inside =>
        (List.nodup_append.mp distinct).2.2 stage inside stage (List.mem_singleton_self _) rfl
      simp only [Move.leaving, Move.held, Move.entering, in_flight_append, inFlight,
        in_flight_update _ _ absent, Function.update_self, List.nil_append, List.append_nil]
      rw [← List.append_assoc, List.take_append_drop]
  | idle => exact (List.append_nil _).symm

def Accounted (chain : List κ) (state : Pipe κ α) : Prop :=
  state.left ++ inFlight state.held chain = state.entered

theorem pipeline_accounts {state : Pipe κ α} (distinct : chain.Nodup)
    (reached : Reachable (pipeline chain) state) : Accounted chain state := by
  apply invariant _ _ reached
  · rintro state ⟨none_, entered, left⟩
    rw [Accounted, left, entered, in_flight_empty none_, List.nil_append]
  · intro before move after accounts _ moved
    calc after.left ++ inFlight after.held chain
        = before.left ++ (move.leaving before.held ++ inFlight (move.held before.held) chain) := by
          rw [moved.left, in_flight_congr moved.held, List.append_assoc]
      _ = before.left ++ inFlight before.held chain ++ move.entering := by
          rw [move_accounts distinct moved.fits, List.append_assoc]
      _ = after.entered := by rw [accounts, moved.entered]

end Npoller.Pipeline
