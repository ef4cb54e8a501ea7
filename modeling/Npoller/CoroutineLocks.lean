import Npoller.CoroutinePool

/-!
Who is inside the critical sections of a submitted coroutine: the mutex of
`execute_callback` and `mutex_` of its promise are each held by the party that is
between the lock and the unlock.
-/

namespace Npoller.CoroutinePool

open DoubleChecked StepSystem

def WaiterPc.InCallback : WaiterPc → Prop
  | .setCallback attempt => attempt.Holds
  | _ => False

def WorkerPc.InCallback : WorkerPc → Prop
  | .storeRan | .runCallback | .addWaitor _ | .unlockCallback => True
  | _ => False

def AddWaitorPc.InPromise : AddWaitorPc → Prop
  | .done => False
  | .attempt registration => registration.Holds

def WorkerPc.InPromise : WorkerPc → Prop
  | .addWaitor pc => pc.InPromise
  | .drain _ .lock => False
  | .drain _ _ => True
  | _ => False

def RegistrarPc.InPromise : RegistrarPc → Prop
  | .idle => False
  | .addWaitor pc => pc.InPromise

variable {θ : Type*} {s after : Pool θ}

def InCallback (s : Pool θ) : Party θ → Prop
  | .waiter => s.waiter.InCallback
  | .worker => s.worker.InCallback
  | .registrar _ => False

def InPromise (s : Pool θ) : Party θ → Prop
  | .waiter => False
  | .worker => s.worker.InPromise
  | .registrar t => (s.registrars t).InPromise

structure Locks (s : Pool θ) : Prop where
  callback : Held s.callback (InCallback s)
  promise : Held s.promise (InPromise s)

theorem in_callback_others (party : Party θ) (waiter : party ≠ .waiter → after.waiter = s.waiter)
    (worker : party ≠ .worker → after.worker = s.worker) (other : Party θ) (away : other ≠ party) :
    InCallback after other ↔ InCallback s other := by
  cases other with
  | waiter => rw [InCallback, InCallback, waiter away.symm]
  | worker => rw [InCallback, InCallback, worker away.symm]
  | registrar t => exact Iff.rfl

theorem in_promise_others (registrars : after.registrars = s.registrars) (other : Party θ)
    (away : other ≠ .worker) : InPromise after other ↔ InPromise s other := by
  cases other with
  | waiter => exact Iff.rfl
  | worker => exact absurd rfl away
  | registrar t => rw [InPromise, InPromise, registrars]

theorem locks_keep (locks : Locks s) (callback : after.callback.holder = s.callback.holder)
    (promise : after.promise.holder = s.promise.holder)
    (inCallback : ∀ other, InCallback after other ↔ InCallback s other)
    (inPromise : ∀ other, InPromise after other ↔ InPromise s other) : Locks after :=
  ⟨held_keep locks.callback callback inCallback, held_keep locks.promise promise inPromise⟩

theorem waiter_in_callback (same : after.waiter.InCallback ↔ s.waiter.InCallback)
    (worker : after.worker = s.worker) (other : Party θ) :
    InCallback after other ↔ InCallback s other := by
  by_cases mine : other = .waiter
  · subst mine
    exact same
  · exact in_callback_others .waiter (fun differs => absurd rfl differs) (fun _ => worker) other mine

theorem worker_in_callback (same : after.worker.InCallback ↔ s.worker.InCallback)
    (waiter : after.waiter = s.waiter) (other : Party θ) :
    InCallback after other ↔ InCallback s other := by
  by_cases mine : other = .worker
  · subst mine
    exact same
  · exact in_callback_others .worker (fun _ => waiter) (fun differs => absurd rfl differs) other mine

theorem worker_in_promise (same : after.worker.InPromise ↔ s.worker.InPromise)
    (registrars : after.registrars = s.registrars) (other : Party θ) :
    InPromise after other ↔ InPromise s other := by
  by_cases mine : other = .worker
  · subst mine
    exact same
  · exact in_promise_others registrars other mine

theorem after_ready_locks {turn : Option Nat} {ready : Bool} (locks : Locks s)
    (outside : ¬s.waiter.InCallback) : Locks (s.afterReady turn ready) := by
  have kept (pc : WaiterPc) (resumes : List (Resume θ)) (away : ¬pc.InCallback) :
      Locks { s with waiter := pc, resumes } := by
    refine locks_keep locks rfl rfl ?_ (fun _ => Iff.rfl)
    exact waiter_in_callback ⟨fun inside => absurd inside away, fun inside => absurd inside outside⟩ rfl
  rcases after_ready_cases s turn ready with ⟨_, way, _, goes⟩ | ⟨pc, unready, goes⟩
  · rw [goes]
    exact kept _ _ id
  · rw [goes]
    apply kept
    intro inside
    cases pc with
    | setCallback attempt => cases attempt <;> first | exact inside | exact unready
    | checkFuture _ | checkDone _ | getFuture _ | suspended | resumed => exact inside

theorem waiter_locks (locks : Locks s) (step : WaiterStep s after) : Locks after := by
  cases step with
  | absent pc | checked pc => exact after_ready_locks locks (by rw [pc]; exact id)
  | started pc _ =>
      have fetched : Locks { s with returnValue := true } := ⟨locks.callback, locks.promise⟩
      exact after_ready_locks fetched (by rw [pc]; exact id)
  | fetched pc _ | unset pc | suspended pc | waited pc _ =>
      exact locks_keep locks rfl rfl (waiter_in_callback (by rw [pc]; exact Iff.rfl) rfl)
        (fun _ => Iff.rfl)
  | attempted pc moves =>
      refine ⟨?_, locks.promise⟩
      refine attempt_held locks.callback moves ?_ Iff.rfl
        (in_callback_others .waiter (fun differs => absurd rfl differs) (fun _ => rfl))
      rw [InCallback, pc]
      exact Iff.rfl

theorem worker_locks (locks : Locks s) (step : WorkerStep s after) : Locks after := by
  have inCallbackOthers {after : Pool θ} (waiter : after.waiter = s.waiter) :
      ∀ other ≠ Party.worker, InCallback after other ↔ InCallback s other :=
    in_callback_others .worker (fun _ => waiter) (fun differs => absurd rfl differs)
  cases step with
  | begun pc | created pc | submitted pc | ran pc | skipped pc _ | called pc _ | queued pc _
  | passedOn pc _ | waiting pc | notWaiting pc | returned pc | threw pc | valued pc
  | drainStored pc | drained pc _ | resumed pc _ | popped pc _ | destroyed pc =>
      exact locks_keep locks rfl rfl (worker_in_callback (by rw [pc]; exact Iff.rfl) rfl)
        (worker_in_promise (by rw [pc]; exact Iff.rfl) rfl)
  | asked pc =>
      refine locks_keep locks rfl rfl (worker_in_callback (by rw [pc]; exact Iff.rfl) rfl) ?_
      refine worker_in_promise ?_ rfl
      rw [pc]
      split
      · exact Iff.rfl
      · exact Iff.rfl
  -- Only the steps that take or release a mutex are about `Held`; the others keep it.
  | entered pc free =>
      refine ⟨held_acquire locks.callback free trivial (inCallbackOthers rfl), ?_⟩
      apply held_keep locks.promise rfl
      exact worker_in_promise (by rw [pc]; exact Iff.rfl) rfl
  | attempted pc moves =>
      constructor
      · apply held_keep locks.callback rfl
        exact worker_in_callback (by rw [pc]; exact Iff.rfl) rfl
      · refine attempt_held locks.promise moves ?_ Iff.rfl (in_promise_others rfl)
        rw [InPromise, pc]
        exact Iff.rfl
  | left pc =>
      constructor
      · refine held_release locks.callback ?_ id (inCallbackOthers rfl)
        rw [InCallback, pc]
        exact trivial
      · apply held_keep locks.promise rfl
        exact worker_in_promise (by rw [pc]; exact Iff.rfl) rfl
  | drainLocked pc free =>
      constructor
      · apply held_keep locks.callback rfl
        exact worker_in_callback (by rw [pc]; exact Iff.rfl) rfl
      · exact held_acquire locks.promise free trivial (in_promise_others rfl)
  | @drainLeft finish pc =>
      have away : ¬(if finish then WorkerPc.destroyBase else .drain true .lock).InPromise := by
        cases finish with
        | false => exact id
        | true => exact id
      constructor
      · apply held_keep locks.callback rfl
        refine worker_in_callback ?_ rfl
        rw [pc]
        cases finish with
        | false => exact Iff.rfl
        | true => exact Iff.rfl
      · have inside : InPromise s .worker := by
          rw [InPromise, pc]
          exact trivial
        exact held_release locks.promise inside away (in_promise_others rfl)

theorem registrar_locks [DecidableEq θ] {t : θ} (locks : Locks s) (step : RegistrarStep s t after) :
    Locks after := by
  have others {promise : Cell (Party θ) (Party θ)} {pc : RegistrarPc} (other : Party θ)
      (away : other ≠ .registrar t) :
      InPromise ({ s with promise }.setRegistrar t pc) other ↔ InPromise s other := by
    cases other with
    | waiter | worker => exact Iff.rfl
    | registrar u =>
        have differs : u ≠ t := fun same => away (congrArg Party.registrar same)
        rw [InPromise, InPromise, set_registrar_other _ _ differs]
  have here {promise : Cell (Party θ) (Party θ)} (pc : RegistrarPc) :
      InPromise ({ s with promise }.setRegistrar t pc) (.registrar t) ↔ pc.InPromise := by
    rw [InPromise, set_registrar_self]
  have kept {pc : RegistrarPc} (same : pc.InPromise ↔ (s.registrars t).InPromise) :
      Locks (s.setRegistrar t pc) := by
    refine ⟨locks.callback, held_keep locks.promise rfl ?_⟩
    intro other
    by_cases mine : other = .registrar t
    · subst mine
      exact (here pc).trans same
    · exact others other mine
  cases step with
  | begun pc _ => exact kept (by rw [pc]; exact Iff.rfl)
  | asked pc =>
      apply kept
      rw [pc]
      split
      · exact Iff.rfl
      · exact Iff.rfl
  | attempted pc _ moves =>
      refine ⟨locks.callback, ?_⟩
      refine attempt_held locks.promise moves ?_ (here _) others
      rw [InPromise, pc]
      exact Iff.rfl

theorem step_locks [DecidableEq θ] {move : Move θ} (locks : Locks s)
    (moves : (coroutineSystem θ).step s move after) : Locks after := by
  cases move with
  | waiter got => exact waiter_locks locks (waiter_steps moves)
  | worker choice => exact worker_locks locks (worker_steps moves)
  | runnable =>
      obtain ⟨left, _, rfl⟩ := runnable_steps moves
      exact ⟨locks.callback, locks.promise⟩
  | registrar t got => exact registrar_locks locks (registrar_steps moves)

theorem submit_locks (timepoint : WaitTimepoint) : Locks (.submit timepoint : Pool θ) := by
  constructor
  · intro party
    cases party <;> exact ⟨nofun, nofun⟩
  · intro party
    cases party <;> exact ⟨nofun, nofun⟩

end Npoller.CoroutinePool
