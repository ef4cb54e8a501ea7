import Mathlib.Data.List.Nodup
import Npoller.StepSystem

/-!
Updates of one atomic value by compare-and-exchange loops, any number of them at a
time. A call loads the value into a private copy. It returns when its operation is
settled there, else it tries to exchange the copy for the operation's next value,
and starts again from the value it finds when the exchange fails. Each call takes
effect at one of its steps: where the exchange succeeds, or where the copy is loaded
in which the operation is settled.
-/

namespace Npoller.CasLoop

open StepSystem

variable {κ ι V : Type*}

/-- Where a call is: `looked` has loaded its copy and not tried it. -/
inductive Turn (V : Type*) where
  | entered
  | looked (expected : V)
  | exchanged
  | returned

structure Call (ι V : Type*) where
  op : ι
  turn : Turn V

/-- `effects` is the history of the calls that have taken effect, in order. -/
structure Cell (κ ι V : Type*) where
  value : V
  calls : κ → Option (Call ι V)
  effects : List (κ × ι)

inductive Label (κ ι : Type*) where
  | enter (call : κ) (op : ι)
  | turn (call : κ)

section Loop
variable [DecidableEq κ] [DecidableEq V] (next : ι → V → V) (settled : ι → V → Prop)
  [∀ op value, Decidable (settled op value)]

def Cell.setCall (s : Cell κ ι V) (call : κ) (op : ι) (turn : Turn V) : Cell κ ι V :=
  { s with calls := Function.update s.calls call (some ⟨op, turn⟩) }

def Cell.look (s : Cell κ ι V) (call : κ) (op : ι) : Cell κ ι V :=
  { s with effects := if settled op s.value then s.effects ++ [(call, op)] else s.effects }.setCall
    call op (.looked s.value)

def Cell.exchange (s : Cell κ ι V) (call : κ) (op : ι) (expected : V) : Cell κ ι V :=
  if s.value = expected then
    { s with value := next op expected, effects := s.effects ++ [(call, op)] }.setCall call op
      .exchanged
  else s.look settled call op

def Cell.turn (s : Cell κ ι V) (call : κ) : Option (Cell κ ι V) :=
  match s.calls call with
  | none => none
  | some ⟨op, .entered⟩ => some (s.look settled call op)
  | some ⟨op, .looked expected⟩ =>
      if settled op expected then some (s.setCall call op .returned)
      else some (s.exchange next settled call op expected)
  | some ⟨op, .exchanged⟩ => some (s.setCall call op .returned)
  | some ⟨_, .returned⟩ => none

def Label.run (s : Cell κ ι V) : Label κ ι → Option (Cell κ ι V)
  | .enter call op => if (s.calls call).isNone then some (s.setCall call op .entered) else none
  | .turn call => s.turn next settled call

def cellSystem (first : V) : System (Cell κ ι V) (Label κ ι) where
  init s := s = ⟨first, fun _ => none, []⟩
  step before label after := label.run next settled before = some after

end Loop

def replay (next : ι → V → V) (first : V) (effects : List (κ × ι)) : V :=
  effects.foldl (fun value effect => next effect.2 value) first

def Call.Taken (settled : ι → V → Prop) (call : Call ι V) : Prop :=
  match call.turn with
  | .entered => False
  | .looked expected => settled call.op expected
  | .exchanged | .returned => True

/-- What a step does in which a call takes effect. -/
structure TakesEffect (next : ι → V → V) (call : κ) (op : ι) (s after : Cell κ ι V) : Prop where
  running : ∃ turn, s.calls call = some ⟨op, turn⟩ ∧ turn ≠ .returned
  first : ∀ other, (call, other) ∉ s.effects
  effect : after.effects = s.effects ++ [(call, op)]
  value : after.value = next op s.value

structure Quiet (s after : Cell κ ι V) : Prop where
  effect : after.effects = s.effects
  value : after.value = s.value

/-- A call has taken effect, with its own operation, exactly once or not at all. -/
structure Accounted (settled : ι → V → Prop) (s : Cell κ ι V) : Prop where
  once : (s.effects.map Prod.fst).Nodup
  taken : ∀ call op, (call, op) ∈ s.effects ↔
    ∃ turn, s.calls call = some ⟨op, turn⟩ ∧ Call.Taken settled ⟨op, turn⟩

theorem first_accounted (settled : ι → V → Prop) (first : V) :
    Accounted settled (⟨first, fun _ => none, []⟩ : Cell κ ι V) := by
  refine ⟨List.nodup_nil, fun call op => iff_of_false List.not_mem_nil ?_⟩
  rintro ⟨_, none_, _⟩
  cases none_

theorem returned_taken {settled : ι → V → Prop} {s : Cell κ ι V} {call : κ} {op : ι}
    (accounted : Accounted settled s) (at_ : s.calls call = some ⟨op, .returned⟩) :
    (call, op) ∈ s.effects :=
  (accounted.taken call op).mpr ⟨.returned, at_, trivial⟩

section Steps
variable [DecidableEq κ] {next : ι → V → V} {settled : ι → V → Prop} {s after : Cell κ ι V}
  {call : κ} {op : ι}

@[simp] theorem set_call_self (turn : Turn V) :
    (s.setCall call op turn).calls call = some ⟨op, turn⟩ := Function.update_self ..

theorem set_call_other {other : κ} (turn : Turn V) (away : other ≠ call) :
    (s.setCall call op turn).calls other = s.calls other := Function.update_of_ne away ..

inductive CellStep (next : ι → V → V) (settled : ι → V → Prop)
    [∀ op value, Decidable (settled op value)] (s : Cell κ ι V) :
    Label κ ι → Cell κ ι V → Prop where
  | entered {call : κ} {op : ι} (fresh : s.calls call = none) :
      CellStep next settled s (.enter call op) (s.setCall call op .entered)
  | looked {call : κ} {op : ι} {turn : Turn V} (at_ : s.calls call = some ⟨op, turn⟩)
      (running : turn ≠ .returned) (open_ : ¬Call.Taken settled ⟨op, turn⟩) :
      CellStep next settled s (.turn call) (s.look settled call op)
  | exchanged {call : κ} {op : ι} (at_ : s.calls call = some ⟨op, .looked s.value⟩)
      (open_ : ¬settled op s.value) :
      CellStep next settled s (.turn call) ({ s with
        value := next op s.value, effects := s.effects ++ [(call, op)] }.setCall call op .exchanged)
  | returned {call : κ} {op : ι} {turn : Turn V} (at_ : s.calls call = some ⟨op, turn⟩)
      (taken : Call.Taken settled ⟨op, turn⟩) :
      CellStep next settled s (.turn call) (s.setCall call op .returned)

variable [∀ op value, Decidable (settled op value)]

theorem turn_steps [DecidableEq V] (moves : s.turn next settled call = some after) :
    CellStep next settled s (.turn call) after := by
  unfold Cell.turn at moves
  split at moves
  · cases moves
  · rename_i op at_
    cases moves
    exact .looked at_ nofun id
  · rename_i op expected at_
    split at moves
    · rename_i done
      cases moves
      exact .returned at_ done
    · rename_i open_
      cases moves
      unfold Cell.exchange
      split
      · rename_i same
        subst same
        exact .exchanged at_ open_
      · exact .looked at_ nofun open_
  · rename_i op at_
    cases moves
    exact .returned at_ trivial
  · cases moves

theorem cell_steps [DecidableEq V] {first : V} {label : Label κ ι}
    (moves : (cellSystem next settled first).step s label after) :
    CellStep next settled s label after := by
  cases label with
  | enter call op =>
      change (if (s.calls call).isNone then some _ else none) = some after at moves
      split at moves
      · rename_i fresh
        cases moves
        exact .entered (Option.isNone_iff_eq_none.mp fresh)
      · cases moves
  | turn call => exact turn_steps moves

omit [DecidableEq κ] [∀ op value, Decidable (settled op value)] in
theorem fresh_not_taken (accounted : Accounted settled s) (fresh : s.calls call = none)
    (other : ι) :
    (call, other) ∉ s.effects := by
  intro member
  obtain ⟨turn, at_, _⟩ := (accounted.taken call other).mp member
  rw [fresh] at at_
  cases at_

omit [DecidableEq κ] [∀ op value, Decidable (settled op value)] in
theorem running_taken {turn : Turn V} (accounted : Accounted settled s)
    (at_ : s.calls call = some ⟨op, turn⟩) (other : ι) :
    (call, other) ∈ s.effects ↔ op = other ∧ Call.Taken settled ⟨op, turn⟩ := by
  rw [accounted.taken call other, at_]
  constructor
  · rintro ⟨_, ⟨rfl⟩, taken⟩
    exact ⟨rfl, taken⟩
  · rintro ⟨rfl, taken⟩
    exact ⟨turn, rfl, taken⟩

omit [∀ op value, Decidable (settled op value)] in
theorem accounted_set {effects : List (κ × ι)} {turn : Turn V} (value : V)
    (accounted : Accounted settled s) (once : (effects.map Prod.fst).Nodup)
    (others : ∀ other otherOp, other ≠ call →
      ((other, otherOp) ∈ effects ↔ (other, otherOp) ∈ s.effects))
    (own : ∀ otherOp, (call, otherOp) ∈ effects ↔
      op = otherOp ∧ Call.Taken settled ⟨op, turn⟩) :
    Accounted settled ({ s with value, effects }.setCall call op turn) := by
  refine ⟨once, ?_⟩
  intro other otherOp
  by_cases mine : other = call
  · subst mine
    rw [set_call_self]
    refine (own otherOp).trans ⟨?_, ?_⟩
    · rintro ⟨rfl, taken⟩
      exact ⟨turn, rfl, taken⟩
    · rintro ⟨_, ⟨rfl⟩, taken⟩
      exact ⟨rfl, taken⟩
  · rw [set_call_other _ mine]
    exact (others other otherOp mine).trans (accounted.taken other otherOp)

omit [∀ op value, Decidable (settled op value)] in
theorem accounted_quiet {turn : Turn V} (accounted : Accounted settled s)
    (own : ∀ otherOp, (call, otherOp) ∈ s.effects ↔
      op = otherOp ∧ Call.Taken settled ⟨op, turn⟩) :
    Accounted settled (s.setCall call op turn) :=
  accounted_set s.value accounted accounted.once (fun _ _ _ => Iff.rfl) own

omit [∀ op value, Decidable (settled op value)] in
theorem accounted_effect {turn : Turn V} (value : V) (accounted : Accounted settled s)
    (first : ∀ other, (call, other) ∉ s.effects) (taken : Call.Taken settled ⟨op, turn⟩) :
    Accounted settled
      ({ s with value, effects := s.effects ++ [(call, op)] }.setCall call op turn) := by
  apply accounted_set value accounted
  · rw [List.map_append]
    refine List.nodup_append.mpr ⟨accounted.once, List.nodup_singleton _, ?_⟩
    rintro other earlier same member rfl
    rw [List.map_singleton, List.mem_singleton] at member
    subst member
    obtain ⟨⟨_, otherOp⟩, listed, rfl⟩ := List.mem_map.mp earlier
    exact first otherOp listed
  · intro other otherOp away
    rw [List.mem_append, List.mem_singleton]
    refine or_iff_left ?_
    rintro ⟨rfl⟩
    exact away rfl
  · intro otherOp
    rw [List.mem_append, List.mem_singleton]
    constructor
    · rintro (earlier | last)
      · exact absurd earlier (first otherOp)
      · exact ⟨(congrArg Prod.snd last).symm, taken⟩
    · rintro ⟨rfl, _⟩
      exact Or.inr rfl

theorem look_accounted {turn : Turn V} (accounted : Accounted settled s)
    (at_ : s.calls call = some ⟨op, turn⟩) (open_ : ¬Call.Taken settled ⟨op, turn⟩) :
    Accounted settled (s.look settled call op) := by
  have first (other : ι) : (call, other) ∉ s.effects :=
    fun member => open_ ((running_taken accounted at_ other).mp member).2
  unfold Cell.look
  split
  · rename_i done
    exact accounted_effect s.value accounted first done
  · rename_i unsettled
    apply accounted_quiet accounted
    exact fun other => iff_of_false (first other) (fun taken => unsettled taken.2)

theorem step_accounted {label : Label κ ι} (accounted : Accounted settled s)
    (step : CellStep next settled s label after) : Accounted settled after := by
  cases step with
  | entered fresh =>
      apply accounted_quiet accounted
      exact fun other => iff_of_false (fresh_not_taken accounted fresh other) (fun taken => taken.2)
  | looked at_ _ open_ => exact look_accounted accounted at_ open_
  | exchanged at_ open_ =>
      refine accounted_effect _ accounted ?_ (show Call.Taken settled ⟨_, .exchanged⟩ from trivial)
      exact fun other member => open_ ((running_taken accounted at_ other).mp member).2
  | @returned call op turn at_ taken =>
      apply accounted_quiet accounted
      intro other
      rw [running_taken accounted at_ other]
      exact and_congr_right (fun _ => iff_of_true taken trivial)

theorem step_effect {label : Label κ ι}
    (still : ∀ op value, settled op value → next op value = value)
    (accounted : Accounted settled s) (step : CellStep next settled s label after) :
    Quiet s after ∨ ∃ call op, label = .turn call ∧ TakesEffect next call op s after := by
  cases step with
  | entered fresh => exact Or.inl ⟨rfl, rfl⟩
  | @looked call op turn at_ running open_ =>
      by_cases done : settled op s.value
      · refine Or.inr ⟨call, op, rfl, ⟨turn, at_, running⟩, ?_, ?_, (still op s.value done).symm⟩
        · exact fun other member => open_ ((running_taken accounted at_ other).mp member).2
        · exact if_pos done
      · exact Or.inl ⟨if_neg done, rfl⟩
  | @exchanged call op at_ open_ =>
      refine Or.inr ⟨call, op, rfl, ⟨_, at_, nofun⟩, ?_, rfl, rfl⟩
      exact fun other member => open_ ((running_taken accounted at_ other).mp member).2
  | returned at_ taken => exact Or.inl ⟨rfl, rfl⟩

end Steps

section Runs
variable [DecidableEq κ] [DecidableEq V] {next : ι → V → V} {settled : ι → V → Prop}
  [∀ op value, Decidable (settled op value)] {first : V} {s : Cell κ ι V}

theorem run_accounted (reached : Reachable (cellSystem next settled first) s) :
    Accounted settled s := by
  apply invariant _ _ reached
  · rintro state ⟨rfl⟩
    exact first_accounted settled first
  · exact fun _ _ _ accounted _ moves => step_accounted accounted (cell_steps moves)

theorem run_replays (still : ∀ op value, settled op value → next op value = value)
    (reached : Reachable (cellSystem next settled first) s) :
    s.value = replay next first s.effects := by
  have kept : Accounted settled s ∧ s.value = replay next first s.effects := by
    apply invariant _ _ reached
    · rintro state ⟨rfl⟩
      exact ⟨first_accounted settled first, rfl⟩
    · rintro before label after ⟨accounted, serial⟩ _ moves
      have step := cell_steps moves
      refine ⟨step_accounted accounted step, ?_⟩
      rcases step_effect still accounted step with quiet | ⟨call, op, _, taken⟩
      · rw [quiet.value, quiet.effect]
        exact serial
      · rw [taken.value, taken.effect, replay, List.foldl_append, serial]
        rfl
  exact kept.2

end Runs

end Npoller.CasLoop
