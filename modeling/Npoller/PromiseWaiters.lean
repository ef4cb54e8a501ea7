import Mathlib.Data.List.Count
import Npoller.DoubleChecked
import Npoller.StepSystem

/-!
The waiters of one `promise_type` of `coroutine_pool.h`. Any number of threads call
`add_waitor` while the thread that completes the coroutine drains the list of waiters
in `return_value` and, with `finish_` set, in the destructor. The flag is loaded
outside of the mutex with relaxed order, so these loads may still see it unset. The
check under the mutex and the `push_back` are two steps.
-/

namespace Npoller.PromiseWaiters

open DoubleChecked (Cell Held held_keep held_acquire held_release)
open StepSystem

inductive AddWaitor where
  | load
  | tryLock (retryTimes : Nat)
  | reload (retryTimes : Nat)
  | check
  | pushBack
  | unlock (registered : Bool)
  | returned (registered : Bool)
  deriving DecidableEq, Repr

/-- `resume_all_waitor`; at `popFront` the handle in front is being resumed. -/
inductive ResumeAll where
  | lock
  | store
  | front
  | popFront
  | unlock
  deriving DecidableEq, Repr

/-- `resumeAll false` is the call of `return_value`, `resumeAll true` the one of the
destructor, which has returned at `destroyed`. -/
inductive Completer where
  | body
  | resumeAll (finish : Bool) (pc : ResumeAll)
  | destroyed
  deriving DecidableEq, Repr

/-- `cell` holds `finish_`, `mutex_` and `waiters`. A call of `add_waitor` stands for the
handle it is made with; as holder of the mutex `none` is the completing thread. -/
structure Promise (κ : Type*) where
  cell : Cell (Option κ) κ
  calls : κ → Option AddWaitor
  completer : Completer
  resumes : List κ

variable {κ : Type*}

def Promise.new : Promise κ :=
  { cell := .new, calls := fun _ => none, completer := .body, resumes := [] }

/-- The next step of a call. `got` is what `try_lock` reports, and with `stale` a load
outside of the mutex does not see the store of `finish_`. -/
def addWaitorMove (cell : Cell (Option κ) κ) (call : κ) (got stale : Bool) :
    AddWaitor → Option (Cell (Option κ) κ × AddWaitor)
  | .load => some (cell, if cell.flag ∧ stale = false then .returned false else .tryLock 0)
  -- `try_lock` may fail although the mutex is free.
  | .tryLock retryTimes =>
      if got then
        if cell.holder.isNone then some ({ cell with holder := some (some call) }, .check) else none
      else some (cell, .reload retryTimes)
  | .reload retryTimes =>
      some (cell, if cell.flag ∧ stale = false then .returned false
        else if retryTimes < 3 then .tryLock (retryTimes + 1) else .returned false)
  | .check => some (cell, if cell.flag then .unlock false else .pushBack)
  | .pushBack => some ({ cell with entries := cell.entries ++ [call] }, .unlock true)
  | .unlock registered => some ({ cell with holder := none }, .returned registered)
  | .returned _ => none

/-- The next step of the completing thread. Without a `value` the coroutine ends by an
exception, and `return_value` is not called. -/
def completerMove (s : Promise κ) (value : Bool) : Option (Promise κ) :=
  match s.completer with
  | .body => some { s with completer := .resumeAll (!value) .lock }
  | .resumeAll finish .lock =>
      if s.cell.holder.isNone then
        some { s with cell := { s.cell with holder := some none }
                      completer := .resumeAll finish .store }
      else none
  | .resumeAll finish .store =>
      some { s with cell := { s.cell with flag := s.cell.flag || finish }
                    completer := .resumeAll finish .front }
  | .resumeAll finish .front =>
      match s.cell.entries with
      | [] => some { s with completer := .resumeAll finish .unlock }
      | call :: _ => some { s with resumes := s.resumes ++ [call]
                                   completer := .resumeAll finish .popFront }
  | .resumeAll finish .popFront =>
      some { s with cell := { s.cell with entries := s.cell.entries.tail }
                    completer := .resumeAll finish .front }
  | .resumeAll finish .unlock =>
      some { s with cell := { s.cell with holder := none }
                    completer := if finish then .destroyed else .resumeAll true .lock }
  | .destroyed => none

section Moves
variable [DecidableEq κ]

def Promise.setCall (s : Promise κ) (call : κ) (pc : AddWaitor) : Promise κ :=
  { s with calls := Function.update s.calls call (some pc) }

inductive Move (κ : Type*) where
  | enter (call : κ)
  | step (call : κ) (got stale : Bool)
  | completer (value : Bool)

/-- A call enters before the promise is destroyed. -/
def Move.run (s : Promise κ) : Move κ → Option (Promise κ)
  | .enter call =>
      if s.calls call = none ∧ s.completer ≠ .destroyed then some (s.setCall call .load) else none
  | .step call got stale =>
      match s.calls call with
      | none => none
      | some pc => (addWaitorMove s.cell call got stale pc).map fun (cell, next) =>
          { s with cell }.setCall call next
  | .completer value => completerMove s value

def promiseSystem (κ : Type*) [DecidableEq κ] : System (Promise κ) (Move κ) where
  init s := s = .new
  step before move after := move.run before = some after

end Moves

section Steps

def AddWaitor.Holds : AddWaitor → Prop
  | .check | .pushBack | .unlock _ => True
  | _ => False

def AddWaitor.Registered : AddWaitor → Prop
  | .unlock registered | .returned registered => registered = true
  | _ => False

instance (pc : AddWaitor) : Decidable pc.Registered := by
  unfold AddWaitor.Registered
  split <;> infer_instance

inductive CallStep (cell : Cell (Option κ) κ) (call : κ) :
    AddWaitor → Cell (Option κ) κ → AddWaitor → Prop where
  | looked {before after : AddWaitor} (outside : ¬before.Holds ∧ ¬after.Holds)
      (unregistered : ¬before.Registered ∧ ¬after.Registered) : CallStep cell call before cell after
  | entered {retryTimes : Nat} (free : cell.holder = none) :
      CallStep cell call (.tryLock retryTimes) { cell with holder := some (some call) } .check
  | checked (down : cell.flag = false) : CallStep cell call .check cell .pushBack
  | refused : CallStep cell call .check cell (.unlock false)
  | pushed :
      CallStep cell call .pushBack { cell with entries := cell.entries ++ [call] } (.unlock true)
  | left (registered : Bool) :
      CallStep cell call (.unlock registered) { cell with holder := none } (.returned registered)

theorem call_steps {cell next : Cell (Option κ) κ} {call : κ} {got stale : Bool}
    {before after : AddWaitor}
    (moves : addWaitorMove cell call got stale before = some (next, after)) :
    CallStep cell call before next after := by
  cases before with
  | load =>
      cases moves
      split
      · exact .looked ⟨id, id⟩ ⟨id, Bool.false_ne_true⟩
      · exact .looked ⟨id, id⟩ ⟨id, id⟩
  | tryLock retryTimes =>
      simp only [addWaitorMove] at moves
      split at moves
      · split at moves
        · rename_i free
          cases moves
          exact .entered (Option.isNone_iff_eq_none.mp free)
        · cases moves
      · cases moves
        exact .looked ⟨id, id⟩ ⟨id, id⟩
  | reload retryTimes =>
      cases moves
      split
      · exact .looked ⟨id, id⟩ ⟨id, Bool.false_ne_true⟩
      · split
        · exact .looked ⟨id, id⟩ ⟨id, id⟩
        · exact .looked ⟨id, id⟩ ⟨id, Bool.false_ne_true⟩
  | check =>
      cases moves
      split
      · exact .refused
      · rename_i down
        exact .checked (Bool.eq_false_iff.mpr down)
  | pushBack =>
      cases moves
      exact .pushed
  | unlock registered =>
      cases moves
      exact .left registered
  | returned registered => cases moves

inductive CompleterStep (s : Promise κ) : Promise κ → Prop where
  | ended {finish : Bool} (pc : s.completer = .body) :
      CompleterStep s { s with completer := .resumeAll finish .lock }
  | entered {finish : Bool} (pc : s.completer = .resumeAll finish .lock)
      (free : s.cell.holder = none) :
      CompleterStep s { s with cell := { s.cell with holder := some none }
                               completer := .resumeAll finish .store }
  | stored {finish : Bool} (pc : s.completer = .resumeAll finish .store) :
      CompleterStep s { s with cell := { s.cell with flag := s.cell.flag || finish }
                               completer := .resumeAll finish .front }
  | vacant {finish : Bool} (pc : s.completer = .resumeAll finish .front)
      (none_ : s.cell.entries = []) :
      CompleterStep s { s with completer := .resumeAll finish .unlock }
  | resumed {finish : Bool} {call : κ} {rest : List κ}
      (pc : s.completer = .resumeAll finish .front) (listed : s.cell.entries = call :: rest) :
      CompleterStep s { s with resumes := s.resumes ++ [call]
                               completer := .resumeAll finish .popFront }
  | popped {finish : Bool} (pc : s.completer = .resumeAll finish .popFront) :
      CompleterStep s { s with cell := { s.cell with entries := s.cell.entries.tail }
                               completer := .resumeAll finish .front }
  | left {finish : Bool} (pc : s.completer = .resumeAll finish .unlock) :
      CompleterStep s { s with cell := { s.cell with holder := none }
                               completer := if finish then .destroyed else .resumeAll true .lock }

theorem completer_steps {s after : Promise κ} {value : Bool}
    (moves : completerMove s value = some after) : CompleterStep s after := by
  unfold completerMove at moves
  split at moves
  · rename_i pc
    cases moves
    exact .ended pc
  · rename_i finish pc
    split at moves
    · rename_i free
      cases moves
      exact .entered pc (Option.isNone_iff_eq_none.mp free)
    · cases moves
  · rename_i finish pc
    cases moves
    exact .stored pc
  · rename_i finish pc
    split at moves
    · rename_i none_
      cases moves
      exact .vacant pc none_
    · rename_i call rest listed
      cases moves
      exact .resumed pc listed
  · rename_i finish pc
    cases moves
    exact .popped pc
  · rename_i finish pc
    cases moves
    exact .left pc
  · cases moves

end Steps

section Invariants

def Completer.Inside : Completer → Prop
  | .resumeAll _ .lock => False
  | .resumeAll _ _ => True
  | _ => False

/-- `resume_all_waitor(true)` has stored `finish_`. -/
def Completer.Finished : Completer → Prop
  | .resumeAll finish .front | .resumeAll finish .popFront | .resumeAll finish .unlock =>
      finish = true
  | .destroyed => True
  | _ => False

def Completer.Drained : Completer → Prop
  | .resumeAll finish .unlock => finish = true
  | .destroyed => True
  | _ => False

def Completer.Resuming : Completer → Prop
  | .resumeAll _ .popFront => True
  | _ => False

def Registered : Option AddWaitor → Prop
  | some pc => pc.Registered
  | none => False

instance (pc : Option AddWaitor) : Decidable (Registered pc) := by
  unfold Registered
  split <;> infer_instance

def CallInside : Option AddWaitor → Prop
  | some pc => pc.Holds
  | none => False

def Inside (s : Promise κ) : Option κ → Prop
  | none => s.completer.Inside
  | some call => CallInside (s.calls call)

/-- The handles still to be resumed; the one in front is popped after its `resume`. -/
def waiting (entries : List κ) : Completer → List κ
  | .resumeAll _ .popFront => entries.tail
  | _ => entries

/-- What the mutex protects: the flag is unset while a call is about to push, and set from
the store of the second drain on; the list that drain has emptied stays empty. -/
structure Guarded (s : Promise κ) : Prop where
  held : Held s.cell (Inside s)
  pushing : ∀ call, s.calls call = some .pushBack → s.cell.flag = false
  finish : s.completer.Finished → s.cell.flag = true
  drained : s.completer.Drained → s.cell.entries = []
  front : s.completer.Resuming → s.cell.entries ≠ []

/-- A registered handle is in the list or has been resumed, and is in one place. -/
def Accounted [DecidableEq κ] (s : Promise κ) : Prop :=
  ∀ call, s.resumes.count call + (waiting s.cell.entries s.completer).count call =
    if Registered (s.calls call) then 1 else 0

variable {s after : Promise κ}

theorem inside_others (completer : Completer) (cell : Cell (Option κ) κ) (resumes : List κ)
    (other : Option κ) (away : other ≠ none) :
    Inside { s with cell, completer, resumes } other ↔ Inside s other := by
  cases other with
  | none => exact absurd rfl away
  | some call => exact Iff.rfl

theorem drained_finished {completer : Completer} (drained : completer.Drained) :
    completer.Finished := by
  unfold Completer.Drained at drained
  split at drained
  · exact drained
  · trivial
  · exact drained.elim

theorem completer_held {completer : Completer} {cell : Cell (Option κ) κ} {resumes : List κ}
    (held : Held s.cell (Inside s)) (holder : cell.holder = s.cell.holder)
    (same : completer.Inside ↔ s.completer.Inside) :
    Held cell (Inside { s with cell, completer, resumes }) := by
  apply held_keep held holder
  intro other
  by_cases mine : other = none
  · subst mine
    exact same
  · exact inside_others completer cell resumes other mine

theorem inside_excludes (guarded : Guarded s) (inside : s.completer.Inside) (call : κ) :
    s.calls call ≠ some .pushBack := by
  intro pushing
  have completes := (guarded.held none).mpr inside
  have calls : Inside s (some call) := by
    rw [Inside, pushing]
    trivial
  have holds := (guarded.held (some call)).mpr calls
  rw [completes] at holds
  cases holds

theorem completer_guarded (guarded : Guarded s) (step : CompleterStep s after) : Guarded after := by
  have held := guarded.held
  have finish := guarded.finish
  have drained := guarded.drained
  have excludes := inside_excludes guarded
  cases step with
  | ended pc =>
      refine ⟨completer_held held rfl ?_, guarded.pushing, nofun, nofun, nofun⟩
      rw [pc]
      exact Iff.rfl
  | entered pc free =>
      exact ⟨held_acquire held free trivial (inside_others _ _ _), guarded.pushing, nofun, nofun,
        nofun⟩
  | stored pc =>
      rw [pc] at excludes
      refine ⟨completer_held held rfl ?_, ?_, ?_, nofun, nofun⟩
      · rw [pc]
        exact Iff.rfl
      · intro call pushing
        exact absurd pushing (excludes trivial call)
      · rintro ⟨rfl⟩
        exact Bool.or_true _
  | vacant pc none_ =>
      rw [pc] at finish
      refine ⟨completer_held held rfl ?_, guarded.pushing, finish, fun _ => none_, nofun⟩
      rw [pc]
      exact Iff.rfl
  | resumed pc listed =>
      rw [pc] at finish
      refine ⟨completer_held held rfl ?_, guarded.pushing, finish, nofun, ?_⟩
      · rw [pc]
        exact Iff.rfl
      · intro _ none_
        rw [listed] at none_
        cases none_
  | popped pc =>
      rw [pc] at finish
      refine ⟨completer_held held rfl ?_, guarded.pushing, finish, nofun, nofun⟩
      rw [pc]
      exact Iff.rfl
  | @left finishes pc =>
      have was : Inside s none := by
        rw [Inside, pc]
        trivial
      rw [pc] at finish drained
      cases finishes with
      | false =>
          exact ⟨held_release held was id (inside_others _ _ _), guarded.pushing, nofun, nofun,
            nofun⟩
      | true =>
          exact ⟨held_release held was id (inside_others _ _ _), guarded.pushing,
            fun _ => finish rfl, fun _ => drained rfl, nofun⟩

theorem new_guarded : Guarded (.new : Promise κ) := by
  refine ⟨?_, nofun, nofun, nofun, nofun⟩
  intro party
  cases party with
  | none => exact ⟨nofun, nofun⟩
  | some call => exact ⟨nofun, nofun⟩

variable [DecidableEq κ]

@[simp] theorem set_call_self (s : Promise κ) (call : κ) (pc : AddWaitor) :
    (s.setCall call pc).calls call = some pc := Function.update_self ..

theorem set_call_other (s : Promise κ) {call other : κ} (pc : AddWaitor) (away : other ≠ call) :
    (s.setCall call pc).calls other = s.calls other := Function.update_of_ne away ..

theorem call_others {call : κ} {cell : Cell (Option κ) κ} {pc : AddWaitor} (other : Option κ)
    (away : other ≠ some call) :
    Inside ({ s with cell }.setCall call pc) other ↔ Inside s other := by
  cases other with
  | none => exact Iff.rfl
  | some name =>
      have differs : name ≠ call := fun same => away (congrArg some same)
      rw [Inside, Inside, set_call_other _ _ differs]

theorem call_keeps_held {call : κ} {cell : Cell (Option κ) κ} {pc : AddWaitor}
    (held : Held s.cell (Inside s)) (holder : cell.holder = s.cell.holder)
    (same : pc.Holds ↔ CallInside (s.calls call)) :
    Held cell (Inside ({ s with cell }.setCall call pc)) := by
  apply held_keep held holder
  intro other
  by_cases mine : other = some call
  · subst mine
    rw [Inside, Inside, set_call_self]
    exact same
  · exact call_others other mine

theorem call_keeps_guarded {call : κ} {pc : AddWaitor} (holder : Option (Option κ))
    (guarded : Guarded s)
    (held : Held { s.cell with holder }
      (Inside ({ s with cell := { s.cell with holder } }.setCall call pc)))
    (pushing : pc = .pushBack → s.cell.flag = false) :
    Guarded ({ s with cell := { s.cell with holder } }.setCall call pc) := by
  refine ⟨held, ?_, guarded.finish, guarded.drained, guarded.front⟩
  intro other at_
  by_cases mine : other = call
  · subst mine
    rw [set_call_self] at at_
    exact pushing (Option.some.inj at_)
  · rw [set_call_other _ _ mine] at at_
    exact guarded.pushing other at_

theorem call_guarded {call : κ} {before next : AddWaitor} {cell : Cell (Option κ) κ}
    (guarded : Guarded s) (at_ : s.calls call = some before)
    (step : CallStep s.cell call before cell next) :
    Guarded ({ s with cell }.setCall call next) := by
  have held := guarded.held
  have here : CallInside (s.calls call) ↔ before.Holds := by
    rw [at_]
    exact Iff.rfl
  cases step with
  | looked outside _ =>
      apply call_keeps_guarded s.cell.holder guarded
      · exact call_keeps_held held rfl ((iff_of_false outside.2 outside.1).trans here.symm)
      · rintro rfl
        exact absurd trivial outside.2
  | entered free =>
      apply call_keeps_guarded _ guarded
      · refine held_acquire held free ?_ call_others
        rw [Inside, set_call_self]
        trivial
      · nofun
  | checked down =>
      apply call_keeps_guarded s.cell.holder guarded
      · exact call_keeps_held held rfl ((iff_of_true trivial trivial).trans here.symm)
      · exact fun _ => down
  | refused =>
      apply call_keeps_guarded s.cell.holder guarded
      · exact call_keeps_held held rfl ((iff_of_true trivial trivial).trans here.symm)
      · nofun
  | pushed =>
      have down := guarded.pushing call at_
      refine ⟨?_, ?_, guarded.finish, ?_, ?_⟩
      · exact call_keeps_held held rfl ((iff_of_true trivial trivial).trans here.symm)
      · intro other pushing
        exact down
      -- The second drain has stored the flag before it empties the list.
      · intro drained
        rw [guarded.finish (drained_finished drained)] at down
        cases down
      · intro _
        exact List.append_ne_nil_of_right_ne_nil _ (List.cons_ne_nil call [])
  | left registered =>
      have was : Inside s (some call) := here.mpr trivial
      apply call_keeps_guarded _ guarded
      · refine held_release held was ?_ call_others
        rw [Inside, set_call_self]
        exact id
      · nofun

theorem enter_guarded {call : κ} (guarded : Guarded s) (fresh : s.calls call = none) :
    Guarded (s.setCall call .load) := by
  apply call_keeps_guarded s.cell.holder guarded
  · apply call_keeps_held guarded.held rfl
    rw [fresh]
    exact Iff.rfl
  · nofun

inductive PromiseStep (s : Promise κ) : Promise κ → Prop where
  | entered {call : κ} (fresh : s.calls call = none) (alive : s.completer ≠ .destroyed) :
      PromiseStep s (s.setCall call .load)
  | called {call : κ} {before next : AddWaitor} {cell : Cell (Option κ) κ}
      (at_ : s.calls call = some before) (step : CallStep s.cell call before cell next) :
      PromiseStep s ({ s with cell }.setCall call next)
  | completed {after : Promise κ} (step : CompleterStep s after) : PromiseStep s after

theorem promise_steps {move : Move κ} (moves : (promiseSystem κ).step s move after) :
    PromiseStep s after := by
  change move.run s = some after at moves
  cases move with
  | enter call =>
      rw [Move.run] at moves
      split at moves
      · rename_i free
        cases moves
        exact .entered free.1 free.2
      · cases moves
  | step call got stale =>
      rw [Move.run] at moves
      split at moves
      · cases moves
      · rename_i before at_
        obtain ⟨⟨cell, next⟩, stepped, rfl⟩ := Option.map_eq_some_iff.mp moves
        exact .called at_ (call_steps stepped)
  | completer value => exact .completed (completer_steps moves)

theorem step_guarded (guarded : Guarded s) (step : PromiseStep s after) : Guarded after := by
  cases step with
  | entered fresh _ => exact enter_guarded guarded fresh
  | called at_ step => exact call_guarded guarded at_ step
  | completed step => exact completer_guarded guarded step

end Invariants

section Account
variable {s after : Promise κ} [DecidableEq κ]

theorem completer_accounted (accounted : Accounted s) (step : CompleterStep s after) :
    Accounted after := by
  intro call
  have count := accounted call
  cases step with
  | ended pc | entered pc _ | stored pc | vacant pc _ | popped pc =>
      rw [pc] at count
      exact count
  | @resumed finish front rest pc listed =>
      rw [pc] at count
      change (s.resumes ++ [front]).count call +
        (waiting s.cell.entries (.resumeAll finish .popFront)).count call =
          if Registered (s.calls call) then 1 else 0
      rw [listed] at count ⊢
      change _ + (front :: rest).count call = _ at count
      change _ + rest.count call = _
      rw [List.count_append, List.count_singleton]
      rw [List.count_cons] at count
      omega
  | @left finish pc =>
      rw [pc] at count
      cases finish with
      | false => exact count
      | true => exact count

omit [DecidableEq κ] in
theorem call_entries {cell next : Cell (Option κ) κ} {call : κ} {before after : AddWaitor}
    (step : CallStep cell call before next after) :
    (next.entries = cell.entries ∧ (after.Registered ↔ before.Registered)) ∨
    (next.entries = cell.entries ++ [call] ∧ ¬before.Registered ∧ after.Registered) := by
  cases step with
  | looked _ unregistered => exact .inl ⟨rfl, iff_of_false unregistered.2 unregistered.1⟩
  | entered _ | checked _ | left _ => exact .inl ⟨rfl, Iff.rfl⟩
  | refused => exact .inl ⟨rfl, iff_of_false Bool.false_ne_true id⟩
  | pushed => exact .inr ⟨rfl, id, rfl⟩

omit [DecidableEq κ] in
theorem waiting_append {entries : List κ} {completer : Completer} (call : κ)
    (front : completer.Resuming → entries ≠ []) :
    waiting (entries ++ [call]) completer = waiting entries completer ++ [call] := by
  unfold waiting
  split
  · exact List.tail_append_of_ne_nil (front trivial)
  · rfl

theorem call_accounted {call : κ} {before next : AddWaitor} {cell : Cell (Option κ) κ}
    (guarded : Guarded s) (accounted : Accounted s) (at_ : s.calls call = some before)
    (step : CallStep s.cell call before cell next) :
    Accounted ({ s with cell }.setCall call next) := by
  intro other
  have count := accounted other
  change s.resumes.count other + (waiting cell.entries s.completer).count other = _
  by_cases mine : other = call
  · subst mine
    rw [at_] at count
    rw [set_call_self]
    rcases call_entries step with ⟨same, keeps⟩ | ⟨added, before_, after_⟩
    · rw [same, count]
      exact if_congr keeps.symm rfl rfl
    · have share : ¬Registered (some before) := before_
      have shareAfter : Registered (some next) := after_
      rw [added, waiting_append _ guarded.front, List.count_append, List.count_singleton_self,
        ← Nat.add_assoc, count, if_neg share, if_pos shareAfter]
  · rw [set_call_other _ _ mine, ← count]
    rcases call_entries step with ⟨same, _⟩ | ⟨added, _⟩
    · rw [same]
    · rw [added, waiting_append _ guarded.front, List.count_append,
        List.count_singleton, if_neg (fun same => mine (eq_of_beq same).symm), Nat.add_zero]

theorem step_accounted (guarded : Guarded s) (accounted : Accounted s)
    (step : PromiseStep s after) : Accounted after := by
  cases step with
  | @entered call fresh _ =>
      intro other
      have count := accounted other
      by_cases mine : other = call
      · subst mine
        rw [fresh] at count
        rw [set_call_self]
        exact count
      · rw [set_call_other _ _ mine]
        exact count
  | called at_ step => exact call_accounted guarded accounted at_ step
  | completed step => exact completer_accounted accounted step

/-- A handle for which `add_waitor` has returned true has been resumed exactly once when
the destructor has returned; one for which it has returned false never is. -/
theorem waiters_resumed_once (reached : Reachable (promiseSystem κ) s) :
    (s.completer = .destroyed → ∀ call, s.calls call = some (.returned true) →
      s.resumes.count call = 1) ∧
    ∀ call, s.calls call = some (.returned false) → call ∉ s.resumes := by
  have kept : Guarded s ∧ Accounted s := by
    apply invariant _ _ reached
    · rintro state rfl
      exact ⟨new_guarded, fun _ => rfl⟩
    · rintro before move after ⟨guarded, accounted⟩ _ moves
      have step := promise_steps moves
      exact ⟨step_guarded guarded step, step_accounted guarded accounted step⟩
  obtain ⟨guarded, accounted⟩ := kept
  constructor
  · intro destroyed call registered
    have count := accounted call
    have none_ : s.cell.entries = [] := guarded.drained (by rw [destroyed]; trivial)
    rw [registered, none_, destroyed] at count
    exact count
  · intro call refused
    have count := accounted call
    rw [refused] at count
    have zero : s.resumes.count call = 0 := Nat.eq_zero_of_add_eq_zero_right count
    exact List.count_eq_zero.mp zero

def afterMoves (moves : List (Move κ)) : Option (Promise κ) :=
  moves.foldlM (fun s move => move.run s) .new

theorem moves_reachable {moves : List (Move κ)} (ran : (afterMoves moves).isSome) :
    Reachable (promiseSystem κ) ((afterMoves moves).get ran) :=
  fold_reachable (fun _ _ _ moved => ⟨trivial, moved⟩) (.start rfl) (Option.some_get ran).symm

/-- One call registers before `return_value`, one between its drain and the destructor,
and one looks again under the mutex after the destructor has set the flag. -/
def slippedIn : List (Move Nat) :=
  [.enter 0, .step 0 true false, .step 0 true false, .step 0 true false, .step 0 true false,
    .step 0 true false, .completer true, .completer true, .completer true, .completer true,
    .completer true, .completer true, .completer true, .enter 1, .step 1 true false,
    .step 1 true false, .step 1 true false, .step 1 true false, .step 1 true false, .enter 2,
    .step 2 true false, .completer true, .completer true, .completer true, .completer true,
    .completer true, .completer true, .step 2 true true, .step 2 true false, .step 2 true false]

theorem slipped_in_runs : (afterMoves slippedIn).isSome := by decide

def slippedInPromise : Promise Nat := (afterMoves slippedIn).get slipped_in_runs

theorem waiters_resumed_once_slipped :
    slippedInPromise.resumes.count 0 = 1 ∧ slippedInPromise.resumes.count 1 = 1 ∧
      2 ∉ slippedInPromise.resumes := by
  have once := waiters_resumed_once (moves_reachable slipped_in_runs)
  exact ⟨once.1 (by decide) 0 (by decide), once.1 (by decide) 1 (by decide), once.2 2 (by decide)⟩

end Account

end Npoller.PromiseWaiters
