import Mathlib.Logic.Function.Basic
import Npoller.DoubleChecked
import Npoller.StepSystem

/-!
`coroutine_pool.h`: the life of one coroutine that `submit_task` has queued, with
the coroutine that awaits it. The awaiting side runs `await_ready` and
`await_suspend`; a worker creates the coroutine, sets the promise of its
`coroutine_task`, runs the callback and then the body up to the destruction of the
frame; other workers run the handles that `add_runnable` has queued; and other
coroutines may register for the result with `coroutine_task::add_waitor` as long as
the promise exists. The awaiting coroutine awaits once, the pool outlives it, and
creating the coroutine does not throw.
-/

namespace Npoller.CoroutinePool

open DoubleChecked StepSystem

/-- `wait_with_coroutine_start` and `wait_with_coroutine_end` -/
inductive WaitTimepoint where
  | coroutineStart
  | coroutineEnd
  deriving DecidableEq, Repr

/-- The coroutines, by their handle, and the worker, which has none here. -/
inductive Party (θ : Type*) where
  | waiter
  | worker
  | registrar (t : θ)
  deriving DecidableEq, Repr

inductive Result where
  | pending
  | value
  | broken
  deriving DecidableEq, Repr

/-- The awaiting side. `turn` is none in the call of `await_ready` that `co_await`
makes and the value of `count` in the loop of `await_suspend`. -/
inductive WaiterPc where
  | checkFuture (turn : Option Nat)
  | checkDone (turn : Option Nat)
  | setCallback (attempt : Attempt)
  | getFuture (count : Nat)
  | suspended
  | resumed
  deriving DecidableEq, Repr

inductive AddWaitorPc where
  | done
  | attempt (attempt : Attempt)
  deriving DecidableEq, Repr

/-- `resume_all_waitor`; at `resumed` the handle in front has been resumed and is
before its end. -/
inductive DrainPc where
  | lock
  | store
  | next
  | resumed
  | unlock
  deriving DecidableEq, Repr

/-- The task that `submit_task` has pushed, and the coroutine it starts. `drain false`
is the call of `return_value`, `drain true` that of the destructor. -/
inductive WorkerPc where
  | queued
  | creating
  | submitting
  | lockCallback
  | storeRan
  | runCallback
  | addWaitor (pc : AddWaitorPc)
  | unlockCallback
  | body
  | setValue
  | drain (finish : Bool) (pc : DrainPc)
  | destroyBase
  | finished
  deriving DecidableEq, Repr

inductive RegistrarPc where
  | idle
  | addWaitor (pc : AddWaitorPc)
  deriving DecidableEq, Repr

inductive Way where
  | awaitReady
  | awaitSuspend
  | callback
  | runnable
  | waitor
  deriving DecidableEq, Repr

/-- A coroutine has been resumed; `submitted` and `ready` tell whether the two
futures were set then. -/
structure Resume (θ : Type*) where
  party : Party θ
  way : Way
  submitted : Bool
  ready : Bool

/-- `callback` is the `execute_callback` with `has_ran`, `promise` the `promise_type`
with `finish_` and its waiters, `submitted` the state of `future<coroutine_task>`,
`runnable` counts the queued handles. -/
structure Pool (θ : Type*) where
  timepoint : WaitTimepoint
  waiter : WaiterPc
  worker : WorkerPc
  registrars : θ → RegistrarPc
  callback : Cell (Party θ) (Party θ)
  promise : Cell (Party θ) (Party θ)
  submitted : Bool
  returnValue : Bool
  future : Result
  runnable : Nat
  resumes : List (Resume θ)

variable {θ : Type*}

def Pool.submit (timepoint : WaitTimepoint) : Pool θ :=
  { timepoint, waiter := .checkFuture none, worker := .queued, registrars := fun _ => .idle
    callback := .new, promise := .new, submitted := false, returnValue := false
    future := .pending, runnable := 0, resumes := [] }

def Pool.ready (s : Pool θ) : Bool := s.future ≠ .pending

def Pool.resume (s : Pool θ) (party : Party θ) (way : Way) : Pool θ :=
  { s with resumes := s.resumes ++ [⟨party, way, s.submitted, s.ready⟩] }

/-- What follows when `await_ready` returns. -/
def Pool.afterReady (s : Pool θ) (turn : Option Nat) (ready : Bool) : Pool θ :=
  match turn, ready with
  | none, true => { s.resume .waiter .awaitReady with waiter := .resumed }
  | none, false => { s with waiter := .setCallback .load }
  | some _, true => { s.resume .waiter .awaitSuspend with waiter := .resumed }
  | some count, false =>
      -- After four turns that found nothing `await_suspend` waits for `future<coroutine_task>`.
      if 3 < count + 1 ∧ s.returnValue = false then { s with waiter := .getFuture (count + 1) }
      else { s with waiter := .checkFuture (some (count + 1)) }

def waiterMove (s : Pool θ) (got : Bool) : Option (Pool θ) :=
  match s.waiter with
  | .checkFuture turn =>
      if s.returnValue ∨ s.submitted then
        match s.timepoint with
        | .coroutineStart => some ({ s with returnValue := true }.afterReady turn true)
        | .coroutineEnd => some { s with returnValue := true, waiter := .checkDone turn }
      else some (s.afterReady turn false)
  | .checkDone turn => some (s.afterReady turn s.ready)
  | .setCallback (.returned callbackSet) =>
      some { s with waiter := if callbackSet then .suspended else .checkFuture (some 0) }
  | .setCallback attempt =>
      (s.callback.attempt .waiter .waiter true got attempt).map fun (callback, next) =>
        { s with callback, waiter := .setCallback next }
  | .getFuture count =>
      if s.submitted then some { s with returnValue := true, waiter := .checkFuture (some count) }
      else none
  | .suspended | .resumed => none

/-- One step of `coroutine_task::add_waitor`, called by `party` for the handle `h`. -/
def Pool.addWaitor (s : Pool θ) (party h : Party θ) (got : Bool) :
    AddWaitorPc → Option (Cell (Party θ) (Party θ) × AddWaitorPc)
  -- `done()` is asked before the flag.
  | .done => some (s.promise, .attempt (if s.ready then .returned false else .load))
  | .attempt attempt =>
      (s.promise.attempt party h false got attempt).map fun (promise, next) =>
        (promise, .attempt next)

/-- One step of `resume_all_waitor`. The handle in front goes on with `await_resume`,
which waits for the result. -/
def drainMove (s : Pool θ) (finish : Bool) : DrainPc → Option (Pool θ)
  | .lock =>
      if s.promise.holder.isNone then
        some { s with promise := { s.promise with holder := some .worker }
                      worker := .drain finish .store }
      else none
  | .store =>
      some { s with promise := { s.promise with flag := s.promise.flag || finish }
                    worker := .drain finish .next }
  | .next =>
      match s.promise.entries with
      | [] => some { s with worker := .drain finish .unlock }
      | h :: _ => some { s.resume h .waitor with worker := .drain finish .resumed }
  -- The handle is popped after `resume` has returned; while the result is missing its
  -- `await_resume` blocks this worker, which still has the mutex.
  | .resumed =>
      if s.ready then
        some { s with promise := { s.promise with entries := s.promise.entries.tail }
                      worker := .drain finish .next }
      else none
  | .unlock =>
      some { s with promise := { s.promise with holder := none }
                    worker := if finish then .destroyBase else .drain true .lock }

/-- The next step of the worker. `choice` is what `is_busy` or `try_lock` reports, and
whether the body returns a value or ends by an exception. -/
def workerMove (s : Pool θ) (choice : Bool) : Option (Pool θ) :=
  match s.worker with
  | .queued => some { s with worker := .creating }
  | .creating => some { s with worker := .submitting }
  | .submitting => some { s with submitted := true, worker := .lockCallback }
  | .lockCallback =>
      if s.callback.holder.isNone then
        some { s with callback := { s.callback with holder := some .worker }, worker := .storeRan }
      else none
  | .storeRan =>
      some { s with callback := { s.callback with flag := true }, worker := .runCallback }
  | .runCallback =>
      if s.callback.entries = [] then some { s with worker := .unlockCallback }
      else match s.timepoint with
        | .coroutineStart =>
            -- Resumed on this worker while `is_busy`, and queued else.
            if choice then some { s.resume .waiter .callback with worker := .unlockCallback }
            else some { s with runnable := s.runnable + 1, worker := .unlockCallback }
        | .coroutineEnd => some { s with worker := .addWaitor .done }
  | .addWaitor (.attempt (.returned true)) => some { s with worker := .unlockCallback }
  -- `add_waitor` has found the coroutine done, so the callback queues the handle itself.
  | .addWaitor (.attempt (.returned false)) =>
      some { s with runnable := s.runnable + 1, worker := .unlockCallback }
  | .addWaitor pc =>
      (s.addWaitor .worker .waiter choice pc).map fun (promise, next) =>
        { s with promise, worker := .addWaitor next }
  | .unlockCallback =>
      some { s with callback := { s.callback with holder := none }, worker := .body }
  -- `unhandled_exception` stores nothing in the promise.
  | .body => some { s with worker := if choice then .setValue else .drain true .lock }
  | .setValue => some { s with future := .value, worker := .drain false .lock }
  | .drain finish pc => drainMove s finish pc
  | .destroyBase =>
      some { s with future := if s.future = .pending then .broken else s.future
                    worker := .finished }
  | .finished => none

/-- A pool worker runs a task of `add_runnable`. -/
def runnableMove (s : Pool θ) : Option (Pool θ) :=
  match s.runnable with
  | 0 => none
  | left + 1 => some { s.resume .waiter .runnable with runnable := left }

/-- The members of the promise have not been destroyed. -/
def WorkerPc.Alive : WorkerPc → Prop
  | .destroyBase | .finished => False
  | _ => True

instance (pc : WorkerPc) : Decidable pc.Alive := by
  unfold WorkerPc.Alive
  split <;> infer_instance

section Registrars
variable [DecidableEq θ]

def Pool.setRegistrar (s : Pool θ) (t : θ) (pc : RegistrarPc) : Pool θ :=
  { s with registrars := Function.update s.registrars t pc }

/-- Another coroutine that has a copy of the `coroutine_task`. -/
def registrarMove (s : Pool θ) (t : θ) (got : Bool) : Option (Pool θ) :=
  match s.registrars t with
  | .idle => if s.submitted then some (s.setRegistrar t (.addWaitor .done)) else none
  | .addWaitor pc =>
      if s.worker.Alive then
        (s.addWaitor (.registrar t) (.registrar t) got pc).map fun (promise, next) =>
          { s with promise }.setRegistrar t (.addWaitor next)
      else none

inductive Move (θ : Type*) where
  | waiter (got : Bool)
  | worker (choice : Bool)
  | runnable
  | registrar (t : θ) (got : Bool)

def Move.run (s : Pool θ) : Move θ → Option (Pool θ)
  | .waiter got => waiterMove s got
  | .worker choice => workerMove s choice
  | .runnable => runnableMove s
  | .registrar t got => registrarMove s t got

def coroutineSystem (θ : Type*) [DecidableEq θ] : System (Pool θ) (Move θ) where
  init s := ∃ timepoint, s = .submit timepoint
  step before move after := move.run before = some after

@[simp] theorem set_registrar_self (s : Pool θ) (t : θ) (pc : RegistrarPc) :
    (s.setRegistrar t pc).registrars t = pc := Function.update_self ..

theorem set_registrar_other (s : Pool θ) {t u : θ} (pc : RegistrarPc) (other : u ≠ t) :
    (s.setRegistrar t pc).registrars u = s.registrars u := Function.update_of_ne other ..

end Registrars

section Steps
variable {s after : Pool θ} {got : Bool}

/-- Where the awaiting side goes on when `await_ready` has returned false. -/
def WaiterPc.Unready : WaiterPc → Prop
  | .setCallback .load | .getFuture _ | .checkFuture _ => True
  | _ => False

theorem after_ready_cases (s : Pool θ) (turn : Option Nat) (ready : Bool) :
    (ready = true ∧ ∃ way : Way, way ≠ .waitor ∧
      s.afterReady turn ready = { s.resume .waiter way with waiter := .resumed }) ∨
    (∃ pc : WaiterPc, pc.Unready ∧ s.afterReady turn ready = { s with waiter := pc }) := by
  cases turn with
  | none =>
      cases ready with
      | false => exact .inr ⟨.setCallback .load, trivial, rfl⟩
      | true => exact .inl ⟨rfl, .awaitReady, nofun, rfl⟩
  | some count =>
      cases ready with
      | false =>
          simp only [Pool.afterReady]
          split
          · exact .inr ⟨.getFuture (count + 1), trivial, rfl⟩
          · exact .inr ⟨.checkFuture (some (count + 1)), trivial, rfl⟩
      | true => exact .inl ⟨rfl, .awaitSuspend, nofun, rfl⟩

inductive WaiterStep (s : Pool θ) : Pool θ → Prop where
  | absent {turn : Option Nat} (pc : s.waiter = .checkFuture turn) :
      WaiterStep s (s.afterReady turn false)
  | started {turn : Option Nat} (pc : s.waiter = .checkFuture turn)
      (there : s.returnValue = true ∨ s.submitted = true) :
      WaiterStep s ({ s with returnValue := true }.afterReady turn true)
  | fetched {turn : Option Nat} (pc : s.waiter = .checkFuture turn)
      (there : s.returnValue = true ∨ s.submitted = true) :
      WaiterStep s { s with returnValue := true, waiter := .checkDone turn }
  | checked {turn : Option Nat} (pc : s.waiter = .checkDone turn) :
      WaiterStep s (s.afterReady turn s.ready)
  | attempted {attempt next : Attempt} {callback : Cell (Party θ) (Party θ)} {got : Bool}
      (pc : s.waiter = .setCallback attempt)
      (moves : s.callback.attempt .waiter .waiter true got attempt = some (callback, next)) :
      WaiterStep s { s with callback, waiter := .setCallback next }
  | unset (pc : s.waiter = .setCallback (.returned false)) :
      WaiterStep s { s with waiter := .checkFuture (some 0) }
  | suspended (pc : s.waiter = .setCallback (.returned true)) :
      WaiterStep s { s with waiter := .suspended }
  | waited {count : Nat} (pc : s.waiter = .getFuture count) (there : s.submitted = true) :
      WaiterStep s { s with returnValue := true, waiter := .checkFuture (some count) }

theorem waiter_steps (moves : waiterMove s got = some after) : WaiterStep s after := by
  unfold waiterMove at moves
  split at moves
  · rename_i pc
    split at moves
    · rename_i there
      split at moves
      · cases moves
        exact .started pc there
      · cases moves
        exact .fetched pc there
    · cases moves
      exact .absent pc
  · rename_i pc
    cases moves
    exact .checked pc
  · rename_i callbackSet pc
    cases callbackSet with
    | false =>
        cases moves
        exact .unset pc
    | true =>
        cases moves
        exact .suspended pc
  · rename_i pc
    obtain ⟨⟨callback, next⟩, attempts, rfl⟩ := Option.map_eq_some_iff.mp moves
    exact .attempted pc attempts
  · rename_i pc
    split at moves
    · rename_i there
      cases moves
      exact .waited pc there
    · cases moves
  · cases moves
  · cases moves

inductive WorkerStep (s : Pool θ) : Pool θ → Prop where
  | begun (pc : s.worker = .queued) : WorkerStep s { s with worker := .creating }
  | created (pc : s.worker = .creating) : WorkerStep s { s with worker := .submitting }
  | submitted (pc : s.worker = .submitting) :
      WorkerStep s { s with submitted := true, worker := .lockCallback }
  | entered (pc : s.worker = .lockCallback) (free : s.callback.holder = none) :
      WorkerStep s { s with callback := { s.callback with holder := some .worker }
                            worker := .storeRan }
  | ran (pc : s.worker = .storeRan) :
      WorkerStep s { s with callback := { s.callback with flag := true }, worker := .runCallback }
  | skipped (pc : s.worker = .runCallback) (vacant : s.callback.entries = []) :
      WorkerStep s { s with worker := .unlockCallback }
  | called (pc : s.worker = .runCallback) (registered : s.callback.entries ≠ []) :
      WorkerStep s { s.resume .waiter .callback with worker := .unlockCallback }
  | queued (pc : s.worker = .runCallback) (registered : s.callback.entries ≠ []) :
      WorkerStep s { s with runnable := s.runnable + 1, worker := .unlockCallback }
  | passedOn (pc : s.worker = .runCallback) (registered : s.callback.entries ≠ []) :
      WorkerStep s { s with worker := .addWaitor .done }
  | waiting (pc : s.worker = .addWaitor (.attempt (.returned true))) :
      WorkerStep s { s with worker := .unlockCallback }
  | notWaiting (pc : s.worker = .addWaitor (.attempt (.returned false))) :
      WorkerStep s { s with runnable := s.runnable + 1, worker := .unlockCallback }
  | asked (pc : s.worker = .addWaitor .done) :
      WorkerStep s { s with worker := .addWaitor (.attempt (if s.ready then .returned false else .load)) }
  | attempted {attempt next : Attempt} {promise : Cell (Party θ) (Party θ)} {choice : Bool}
      (pc : s.worker = .addWaitor (.attempt attempt))
      (moves : s.promise.attempt .worker .waiter false choice attempt = some (promise, next)) :
      WorkerStep s { s with promise, worker := .addWaitor (.attempt next) }
  | left (pc : s.worker = .unlockCallback) :
      WorkerStep s { s with callback := { s.callback with holder := none }, worker := .body }
  | returned (pc : s.worker = .body) : WorkerStep s { s with worker := .setValue }
  | threw (pc : s.worker = .body) : WorkerStep s { s with worker := .drain true .lock }
  | valued (pc : s.worker = .setValue) :
      WorkerStep s { s with future := .value, worker := .drain false .lock }
  | drainLocked {finish : Bool} (pc : s.worker = .drain finish .lock)
      (free : s.promise.holder = none) :
      WorkerStep s { s with promise := { s.promise with holder := some .worker }
                            worker := .drain finish .store }
  | drainStored {finish : Bool} (pc : s.worker = .drain finish .store) :
      WorkerStep s { s with promise := { s.promise with flag := s.promise.flag || finish }
                            worker := .drain finish .next }
  | drained {finish : Bool} (pc : s.worker = .drain finish .next)
      (vacant : s.promise.entries = []) : WorkerStep s { s with worker := .drain finish .unlock }
  | resumed {finish : Bool} {h : Party θ} {rest : List (Party θ)}
      (pc : s.worker = .drain finish .next) (listed : s.promise.entries = h :: rest) :
      WorkerStep s { s.resume h .waitor with worker := .drain finish .resumed }
  | popped {finish : Bool} (pc : s.worker = .drain finish .resumed) (ready : s.ready = true) :
      WorkerStep s { s with promise := { s.promise with entries := s.promise.entries.tail }
                            worker := .drain finish .next }
  | drainLeft {finish : Bool} (pc : s.worker = .drain finish .unlock) :
      WorkerStep s { s with promise := { s.promise with holder := none }
                            worker := if finish then .destroyBase else .drain true .lock }
  | destroyed (pc : s.worker = .destroyBase) :
      WorkerStep s { s with future := if s.future = .pending then .broken else s.future
                            worker := .finished }

theorem drain_steps {finish : Bool} {pc : DrainPc} (at_ : s.worker = .drain finish pc)
    (moves : drainMove s finish pc = some after) : WorkerStep s after := by
  cases pc with
  | lock =>
      simp only [drainMove] at moves
      split at moves
      · rename_i free
        cases moves
        exact .drainLocked at_ (Option.isNone_iff_eq_none.mp free)
      · cases moves
  | store =>
      cases moves
      exact .drainStored at_
  | next =>
      simp only [drainMove] at moves
      split at moves
      · rename_i vacant
        cases moves
        exact .drained at_ vacant
      · rename_i listed
        cases moves
        exact .resumed at_ listed
  | resumed =>
      simp only [drainMove] at moves
      split at moves
      · rename_i ready
        cases moves
        exact .popped at_ ready
      · cases moves
  | unlock =>
      cases moves
      exact .drainLeft at_

theorem worker_steps {choice : Bool} (moves : workerMove s choice = some after) :
    WorkerStep s after := by
  unfold workerMove at moves
  split at moves
  · rename_i pc
    cases moves
    exact .begun pc
  · rename_i pc
    cases moves
    exact .created pc
  · rename_i pc
    cases moves
    exact .submitted pc
  · rename_i pc
    split at moves
    · rename_i free
      cases moves
      exact .entered pc (Option.isNone_iff_eq_none.mp free)
    · cases moves
  · rename_i pc
    cases moves
    exact .ran pc
  · rename_i pc
    split at moves
    · rename_i vacant
      cases moves
      exact .skipped pc vacant
    · rename_i registered
      split at moves
      · split at moves
        · cases moves
          exact .called pc registered
        · cases moves
          exact .queued pc registered
      · cases moves
        exact .passedOn pc registered
  · rename_i pc
    cases moves
    exact .waiting pc
  · rename_i pc
    cases moves
    exact .notWaiting pc
  · rename_i add _ _ pc
    obtain ⟨⟨promise, next⟩, adds, rfl⟩ := Option.map_eq_some_iff.mp moves
    cases add with
    | done =>
        cases adds
        exact .asked pc
    | attempt attempt =>
        obtain ⟨⟨promise, next⟩, attempts, moved⟩ := Option.map_eq_some_iff.mp adds
        cases moved
        exact .attempted pc attempts
  · rename_i pc
    cases moves
    exact .left pc
  · rename_i pc
    cases moves
    split
    · exact .returned pc
    · exact .threw pc
  · rename_i pc
    cases moves
    exact .valued pc
  · rename_i pc
    exact drain_steps pc moves
  · rename_i pc
    cases moves
    exact .destroyed pc
  · cases moves

theorem runnable_steps (moves : runnableMove s = some after) :
    ∃ left, s.runnable = left + 1 ∧
      after = { s.resume .waiter .runnable with runnable := left } := by
  unfold runnableMove at moves
  split at moves
  · cases moves
  · rename_i left queued
    cases moves
    exact ⟨left, queued, rfl⟩

inductive RegistrarStep [DecidableEq θ] (s : Pool θ) (t : θ) : Pool θ → Prop where
  | begun (pc : s.registrars t = .idle) (there : s.submitted = true) :
      RegistrarStep s t (s.setRegistrar t (.addWaitor .done))
  | asked (pc : s.registrars t = .addWaitor .done) :
      RegistrarStep s t (s.setRegistrar t
        (.addWaitor (.attempt (if s.ready then .returned false else .load))))
  | attempted {attempt next : Attempt} {promise : Cell (Party θ) (Party θ)} {got : Bool}
      (pc : s.registrars t = .addWaitor (.attempt attempt)) (alive : s.worker.Alive)
      (moves : s.promise.attempt (.registrar t) (.registrar t) false got attempt =
        some (promise, next)) :
      RegistrarStep s t ({ s with promise }.setRegistrar t (.addWaitor (.attempt next)))

theorem registrar_steps [DecidableEq θ] {t : θ} (moves : registrarMove s t got = some after) :
    RegistrarStep s t after := by
  unfold registrarMove at moves
  split at moves
  · rename_i pc
    split at moves
    · rename_i there
      cases moves
      exact .begun pc there
    · cases moves
  · rename_i add pc
    split at moves
    · rename_i alive
      obtain ⟨⟨promise, next⟩, adds, rfl⟩ := Option.map_eq_some_iff.mp moves
      cases add with
      | done =>
          cases adds
          exact .asked pc
      | attempt attempt =>
          obtain ⟨⟨promise, next⟩, attempts, moved⟩ := Option.map_eq_some_iff.mp adds
          cases moved
          exact .attempted pc alive attempts
    · cases moves

end Steps

section Runs
variable [DecidableEq θ]

def afterMoves (allowed : Pool θ → Move θ → Prop) [∀ s move, Decidable (allowed s move)]
    (timepoint : WaitTimepoint) (moves : List (Move θ)) : Option (Pool θ) :=
  moves.foldlM (fun s move => if allowed s move then move.run s else none) (.submit timepoint)

theorem moves_reachable {allowed : Pool θ → Move θ → Prop} [∀ s move, Decidable (allowed s move)]
    {timepoint : WaitTimepoint} {moves : List (Move θ)}
    (ran : (afterMoves allowed timepoint moves).isSome) :
    ReachableBy (coroutineSystem θ) allowed ((afterMoves allowed timepoint moves).get ran) := by
  have begins : (coroutineSystem θ).init (.submit timepoint) := ⟨timepoint, rfl⟩
  exact guarded_reachable (fun _ _ _ moved => moved) (.start begins) (Option.some_get ran).symm

end Runs

end Npoller.CoroutinePool
