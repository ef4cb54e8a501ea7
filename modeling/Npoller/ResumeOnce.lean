import Mathlib.Data.List.Count
import Npoller.CoroutinePool

/-!
The right to resume the awaiting coroutine. There is one, and at any time it is in one
place: with the awaiting side until it has registered its callback, in the callback
until the worker takes it, with the worker that calls `add_waitor`, in the list of the
promise, in the queue of the pool, or spent.
-/

namespace Npoller.ResumeOnce

open CoroutinePool DoubleChecked StepSystem

def waiterShare : WaiterPc → Nat
  | .checkFuture _ | .checkDone _ | .getFuture _ => 1
  | .setCallback attempt => if attempt.Registered then 0 else 1
  | .suspended | .resumed => 0

def workerShare : WorkerPc → Nat
  | .addWaitor .done => 1
  | .addWaitor (.attempt attempt) => if attempt.Registered then 0 else 1
  | _ => 0

/-- `execute_callback` has stored `has_ran`. -/
def HasRan : WorkerPc → Prop
  | .queued | .creating | .submitting | .lockCallback | .storeRan => False
  | _ => True

def HasSubmitted : WorkerPc → Prop
  | .queued | .creating | .submitting => False
  | _ => True

/-- `resume_all_waitor(true)` has stored `finish_`. -/
def HasFinished : WorkerPc → Prop
  | .drain true .next | .drain true .resumed | .drain true .unlock | .destroyBase | .finished => True
  | _ => False

def HasDrained : WorkerPc → Prop
  | .drain true .unlock | .destroyBase | .finished => True
  | _ => False

variable {θ : Type*}

def callbackShare (entries : List (Party θ)) : WorkerPc → Nat
  | .queued | .creating | .submitting | .lockCallback | .storeRan | .runCallback =>
      if entries = [] then 0 else 1
  | _ => 0

/-- A handle that is being resumed is in front of the list until it returns. -/
def waiting (entries : List (Party θ)) : WorkerPc → List (Party θ)
  | .drain _ .resumed => entries.tail
  | _ => entries

structure Flags (s : Pool θ) : Prop where
  ran : HasRan s.worker → s.callback.flag = true
  finish : HasFinished s.worker → s.promise.flag = true
  drained : HasDrained s.worker → s.promise.entries = []
  front : ∀ finish, s.worker = .drain finish .resumed → s.promise.entries ≠ []

/-- Wherever the right to resume is handed on, the future has been set. -/
structure Submitted (s : Pool θ) : Prop where
  worker : HasSubmitted s.worker → s.submitted = true
  returnValue : s.returnValue = true → s.submitted = true
  fetched : ∀ turn, s.waiter = .checkDone turn → s.returnValue = true
  runnable : s.runnable ≠ 0 → s.submitted = true
  listed : .waiter ∈ s.promise.entries → s.submitted = true
  resumes : ∀ resume ∈ s.resumes, resume.party = .waiter → resume.submitted = true

section Steps
variable {s after : Pool θ}

theorem flags_keep (flags : Flags s) (worker : after.worker = s.worker)
    (callback : after.callback.flag = s.callback.flag) (promise : after.promise = s.promise) :
    Flags after := by
  refine ⟨?_, ?_, ?_, ?_⟩
  · rw [worker, callback]
    exact flags.ran
  · rw [worker, promise]
    exact flags.finish
  · rw [worker, promise]
    exact flags.drained
  · rw [worker, promise]
    exact flags.front

theorem after_ready_flags {turn : Option Nat} {ready : Bool} (flags : Flags s) :
    Flags (s.afterReady turn ready) := by
  rcases after_ready_cases s turn ready with ⟨_, way, _, goes⟩ | ⟨pc, _, goes⟩
  · rw [goes]
    exact flags_keep flags rfl rfl rfl
  · rw [goes]
    exact flags_keep flags rfl rfl rfl

theorem waiter_flags (flags : Flags s) (step : WaiterStep s after) : Flags after := by
  cases step with
  | absent _ | checked _ => exact after_ready_flags flags
  | started _ _ =>
      have fetched : Flags { s with returnValue := true } := flags_keep flags rfl rfl rfl
      exact after_ready_flags fetched
  | fetched _ _ | unset _ | suspended _ | waited _ _ => exact flags_keep flags rfl rfl rfl
  | attempted _ moves => exact flags_keep flags rfl (attempt_flag moves) rfl

theorem worker_flags (flags : Flags s) (step : WorkerStep s after) : Flags after := by
  have ran {pc : WorkerPc} (at_ : s.worker = pc) (has : HasRan pc) : s.callback.flag = true := by
    apply flags.ran
    rw [at_]
    exact has
  have finished {pc : WorkerPc} (at_ : s.worker = pc) (has : HasFinished pc) :
      s.promise.flag = true := by
    apply flags.finish
    rw [at_]
    exact has
  have drained {pc : WorkerPc} (at_ : s.worker = pc) (has : HasDrained pc) :
      s.promise.entries = [] := by
    apply flags.drained
    rw [at_]
    exact has
  cases step with
  | begun _ | created _ | submitted _ | entered _ _ => exact ⟨nofun, nofun, nofun, nofun⟩
  | ran _ => exact ⟨fun _ => rfl, nofun, nofun, nofun⟩
  | skipped pc _ | called pc _ | queued pc _ | passedOn pc _ | waiting pc | notWaiting pc
  | asked pc | left pc | returned pc | threw pc | valued pc | attempted pc _ =>
      exact ⟨fun _ => ran pc trivial, nofun, nofun, nofun⟩
  | @drainLocked finish pc _ =>
      cases finish <;> exact ⟨fun _ => ran pc trivial, nofun, nofun, nofun⟩
  | @drainStored finish pc =>
      cases finish with
      | false => exact ⟨fun _ => ran pc trivial, nofun, nofun, nofun⟩
      | true => exact ⟨fun _ => ran pc trivial, fun _ => Bool.or_true _, nofun, nofun⟩
  | @drained finish pc vacant =>
      cases finish with
      | false => exact ⟨fun _ => ran pc trivial, nofun, nofun, nofun⟩
      | true => exact ⟨fun _ => ran pc trivial, fun _ => finished pc trivial, fun _ => vacant, nofun⟩
  | @resumed finish h rest pc listed =>
      have front : s.promise.entries ≠ [] := by
        rw [listed]
        exact List.cons_ne_nil h rest
      cases finish with
      | false => exact ⟨fun _ => ran pc trivial, nofun, nofun, fun _ _ => front⟩
      | true =>
          exact ⟨fun _ => ran pc trivial, fun _ => finished pc trivial, nofun, fun _ _ => front⟩
  | @popped finish pc _ =>
      cases finish with
      | false => exact ⟨fun _ => ran pc trivial, nofun, nofun, nofun⟩
      | true => exact ⟨fun _ => ran pc trivial, fun _ => finished pc trivial, nofun, nofun⟩
  | @drainLeft finish pc =>
      cases finish with
      | false => exact ⟨fun _ => ran pc trivial, nofun, nofun, nofun⟩
      | true =>
          exact ⟨fun _ => ran pc trivial, fun _ => finished pc trivial,
            fun _ => drained pc trivial, nofun⟩
  | destroyed pc =>
      exact ⟨fun _ => ran pc trivial, fun _ => finished pc trivial, fun _ => drained pc trivial,
        nofun⟩

theorem drained_finished {pc : WorkerPc} (drained : HasDrained pc) : HasFinished pc := by
  unfold HasDrained at drained
  split at drained
  · trivial
  · trivial
  · trivial
  · exact drained.elim

theorem registrar_flags [DecidableEq θ] {t : θ} (flags : Flags s) (step : RegistrarStep s t after) :
    Flags after := by
  cases step with
  | begun _ _ | asked _ => exact flags_keep flags rfl rfl rfl
  | @attempted attempt next promise got _ _ moves =>
      have flag := attempt_flag moves
      refine ⟨flags.ran, ?_, ?_, ?_⟩
      · intro finished
        exact flag.trans (flags.finish finished)
      · intro drained
        rcases attempt_entries moves with ⟨same, _⟩ | ⟨_, down, _⟩
        · exact same.trans (flags.drained drained)
        -- The flag is set before the list is drained, so nothing is added any more.
        · rw [flags.finish (drained_finished drained)] at down
          cases down
      · intro finish resumed
        have front := flags.front finish resumed
        rcases attempt_entries moves with ⟨same, _⟩ | ⟨added, _⟩
        · exact fun vacant => front (same.symm.trans vacant)
        · exact fun vacant => List.append_ne_nil_of_right_ne_nil _ (List.cons_ne_nil _ _)
            (added.symm.trans vacant)

theorem step_flags [DecidableEq θ] {move : Move θ} (flags : Flags s)
    (moves : (coroutineSystem θ).step s move after) : Flags after := by
  cases move with
  | waiter got => exact waiter_flags flags (waiter_steps moves)
  | worker choice => exact worker_flags flags (worker_steps moves)
  | runnable =>
      obtain ⟨left, _, rfl⟩ := runnable_steps moves
      exact flags_keep flags rfl rfl rfl
  | registrar t got => exact registrar_flags flags (registrar_steps moves)

theorem resume_submitted {party : Party θ} {way : Way} (handed : Submitted s)
    (set : party = .waiter → s.submitted = true) :
    ∀ resume ∈ (s.resume party way).resumes, resume.party = .waiter → resume.submitted = true := by
  intro resume member mine
  rcases List.mem_append.mp member with earlier | new
  · exact handed.resumes resume earlier mine
  · rw [List.mem_singleton.mp new] at mine ⊢
    exact set mine

theorem after_ready_submitted {turn : Option Nat} {ready : Bool} (handed : Submitted s)
    (set : ready = true → s.returnValue = true) : Submitted (s.afterReady turn ready) := by
  rcases after_ready_cases s turn ready with ⟨true_, way, _, goes⟩ | ⟨pc, unready, goes⟩
  · have submitted := handed.returnValue (set true_)
    rw [goes]
    exact ⟨handed.worker, handed.returnValue, nofun, handed.runnable, handed.listed,
      resume_submitted handed (fun _ => submitted)⟩
  · rw [goes]
    refine ⟨handed.worker, handed.returnValue, ?_, handed.runnable, handed.listed, handed.resumes⟩
    rintro turn rfl
    exact unready.elim

theorem waiter_submitted (handed : Submitted s) (step : WaiterStep s after) : Submitted after := by
  cases step with
  | absent _ => exact after_ready_submitted handed nofun
  | started pc there =>
      have set : s.submitted = true := there.elim handed.returnValue id
      have fetched : Submitted { s with returnValue := true } :=
        ⟨handed.worker, fun _ => set, fun _ _ => rfl, handed.runnable, handed.listed,
          handed.resumes⟩
      exact after_ready_submitted fetched (fun _ => rfl)
  | fetched _ there =>
      have set : s.submitted = true := there.elim handed.returnValue id
      exact ⟨handed.worker, fun _ => set, fun _ _ => rfl, handed.runnable, handed.listed,
        handed.resumes⟩
  | checked pc => exact after_ready_submitted handed (fun _ => handed.fetched _ pc)
  | attempted _ _ | unset _ | suspended _ =>
      exact ⟨handed.worker, handed.returnValue, nofun, handed.runnable, handed.listed,
        handed.resumes⟩
  | waited _ there =>
      exact ⟨handed.worker, fun _ => there, nofun, handed.runnable, handed.listed, handed.resumes⟩

theorem worker_submitted (handed : Submitted s) (step : WorkerStep s after) : Submitted after := by
  cases step with
  | begun _ | created _ =>
      exact ⟨nofun, handed.returnValue, handed.fetched, handed.runnable, handed.listed,
        handed.resumes⟩
  | submitted _ =>
      exact ⟨fun _ => rfl, fun _ => rfl, handed.fetched, fun _ => rfl, fun _ => rfl, handed.resumes⟩
  | entered pc _ | ran pc | skipped pc _ | passedOn pc _ | waiting pc | asked pc | left pc
  | returned pc | threw pc | valued pc | drainLocked pc _ | drainStored pc | drained pc _
  | drainLeft pc | destroyed pc =>
      have set : s.submitted = true := handed.worker (by rw [pc]; trivial)
      exact ⟨fun _ => set, handed.returnValue, handed.fetched, handed.runnable, handed.listed,
        handed.resumes⟩
  | called pc _ | resumed pc _ =>
      have set : s.submitted = true := handed.worker (by rw [pc]; trivial)
      exact ⟨fun _ => set, handed.returnValue, handed.fetched, handed.runnable, handed.listed,
        resume_submitted handed (fun _ => set)⟩
  | queued pc _ | notWaiting pc | attempted pc _ | popped pc _ =>
      have set : s.submitted = true := handed.worker (by rw [pc]; trivial)
      exact ⟨fun _ => set, handed.returnValue, handed.fetched, fun _ => set, fun _ => set,
        handed.resumes⟩

theorem registrar_submitted [DecidableEq θ] {t : θ} (handed : Submitted s)
    (step : RegistrarStep s t after) : Submitted after := by
  cases step with
  | begun _ _ | asked _ =>
      exact ⟨handed.worker, handed.returnValue, handed.fetched, handed.runnable, handed.listed,
        handed.resumes⟩
  | @attempted attempt next promise got _ _ moves =>
      refine ⟨handed.worker, handed.returnValue, handed.fetched, handed.runnable, ?_,
        handed.resumes⟩
      intro member
      have listed : .waiter ∈ promise.entries := member
      rcases attempt_entries moves with ⟨same, _⟩ | ⟨added, _⟩
      · rw [same] at listed
        exact handed.listed listed
      · rw [added] at listed
        rcases List.mem_append.mp listed with earlier | new
        · exact handed.listed earlier
        · cases List.mem_singleton.mp new

theorem step_submitted [DecidableEq θ] {move : Move θ} (handed : Submitted s)
    (moves : (coroutineSystem θ).step s move after) : Submitted after := by
  cases move with
  | waiter got => exact waiter_submitted handed (waiter_steps moves)
  | worker choice => exact worker_submitted handed (worker_steps moves)
  | runnable =>
      obtain ⟨left, queued, rfl⟩ := runnable_steps moves
      have set : s.submitted = true := handed.runnable (by rw [queued]; exact Nat.succ_ne_zero left)
      exact ⟨handed.worker, handed.returnValue, handed.fetched, fun _ => set, handed.listed,
        resume_submitted handed (fun _ => set)⟩
  | registrar t got => exact registrar_submitted handed (registrar_steps moves)

end Steps

section Rights
variable [DecidableEq θ] {s after : Pool θ}

def resumedTimes (resumes : List (Resume θ)) : Nat :=
  resumes.countP (fun resume => resume.party = .waiter)

def passedOn (s : Pool θ) : Nat :=
  callbackShare s.callback.entries s.worker + workerShare s.worker +
    (waiting s.promise.entries s.worker).count .waiter + s.runnable

def rights (s : Pool θ) : Nat := waiterShare s.waiter + passedOn s + resumedTimes s.resumes

theorem resumed_waiter (s : Pool θ) (way : Way) :
    resumedTimes (s.resume .waiter way).resumes = resumedTimes s.resumes + 1 := by
  simp [resumedTimes, Pool.resume]

theorem after_ready_rights {turn : Option Nat} {ready : Bool} (share : waiterShare s.waiter = 1) :
    rights (s.afterReady turn ready) = rights s := by
  have keeps {pc : WaiterPc} (same : waiterShare pc = 1) : rights { s with waiter := pc } = rights s := by
    rw [rights, rights, share, same]
    rfl
  have spends (way : Way) :
      rights { s.resume .waiter way with waiter := .resumed } = rights s := by
    change 0 + passedOn s + resumedTimes (s.resume .waiter way).resumes = rights s
    rw [resumed_waiter, rights, share]
    omega
  rcases after_ready_cases s turn ready with ⟨_, way, _, goes⟩ | ⟨pc, unready, goes⟩
  · rw [goes]
    exact spends way
  · rw [goes]
    apply keeps
    cases pc with
    | setCallback attempt => cases attempt <;> first | rfl | exact unready.elim
    | checkFuture _ | getFuture _ => rfl
    | checkDone _ | suspended | resumed => exact unready.elim

theorem waiter_rights (flags : Flags s) (step : WaiterStep s after) : rights after = rights s := by
  cases step with
  | absent pc | checked pc => exact after_ready_rights (by rw [pc]; rfl)
  | started pc _ =>
      have share : waiterShare s.waiter = 1 := by
        rw [pc]
        rfl
      exact after_ready_rights (s := { s with returnValue := true }) share
  | fetched pc _ | unset pc | suspended pc | waited pc _ =>
      rw [rights, rights, pc]
      rfl
  | @attempted attempt next callback got pc moves =>
      rw [rights, rights, pc]
      change waiterShare (.setCallback next) + passedOn { s with callback } + _ = _
      rcases attempt_entries moves with ⟨same, registered⟩ | ⟨added, down, rfl, registered, vacant⟩
      · have shares : waiterShare (.setCallback next) = waiterShare (.setCallback attempt) := by
          simp only [waiterShare, registered]
        have kept : passedOn { s with callback } = passedOn s := by
          simp only [passedOn, same]
        rw [shares, kept]
      · -- the right goes into the callback, which the worker has not looked at
        have early : ¬HasRan s.worker := by
          intro ran
          rw [flags.ran ran] at down
          cases down
        have shares : callbackShare callback.entries s.worker =
            callbackShare s.callback.entries s.worker + 1 := by
          rw [added, vacant rfl]
          cases worker : s.worker with
          | queued | creating | submitting | lockCallback | storeRan => rfl
          | runCallback | addWaitor _ | unlockCallback | body | setValue | drain _ _ | destroyBase
          | finished =>
              rw [worker] at early
              exact absurd trivial early
        have here : waiterShare (.setCallback next) = 0 := if_pos registered
        have was : waiterShare (.setCallback .locked) = 1 := rfl
        rw [here, was]
        simp only [passedOn, shares]
        omega

theorem worker_rights (step : WorkerStep s after) : rights after = rights s := by
  cases step with
  | begun pc | created pc | submitted pc | entered pc _ | ran pc | waiting pc | left pc
  | returned pc | threw pc | valued pc | drainLocked pc _ | drainStored pc | drained pc _
  | popped pc _ | destroyed pc =>
      rw [rights, rights, passedOn, passedOn, pc]
      rfl
  | skipped pc vacant =>
      have none_ : callbackShare s.callback.entries .runCallback = 0 := if_pos vacant
      rw [rights, rights, passedOn, passedOn, pc, none_]
      rfl
  | called pc registered =>
      have one : callbackShare s.callback.entries .runCallback = 1 := if_neg registered
      rw [rights, rights, passedOn, passedOn, pc, one]
      change waiterShare s.waiter + (0 + 0 + s.promise.entries.count .waiter + s.runnable) +
        resumedTimes (s.resume .waiter .callback).resumes =
          waiterShare s.waiter + (1 + 0 + s.promise.entries.count .waiter + s.runnable) + _
      rw [resumed_waiter]
      omega
  | queued pc registered =>
      have one : callbackShare s.callback.entries .runCallback = 1 := if_neg registered
      rw [rights, rights, passedOn, passedOn, pc, one]
      change waiterShare s.waiter + (0 + 0 + s.promise.entries.count .waiter + (s.runnable + 1)) +
        resumedTimes s.resumes =
        waiterShare s.waiter + (1 + 0 + s.promise.entries.count .waiter + s.runnable) + _
      omega
  | passedOn pc registered =>
      have one : callbackShare s.callback.entries .runCallback = 1 := if_neg registered
      rw [rights, rights, passedOn, passedOn, pc, one]
      change waiterShare s.waiter + (0 + 1 + s.promise.entries.count .waiter + s.runnable) + _ =
        waiterShare s.waiter + (1 + 0 + s.promise.entries.count .waiter + s.runnable) + _
      rfl
  | notWaiting pc =>
      rw [rights, rights, passedOn, passedOn, pc]
      change waiterShare s.waiter + (0 + 0 + s.promise.entries.count .waiter + (s.runnable + 1)) +
        resumedTimes s.resumes =
        waiterShare s.waiter + (0 + 1 + s.promise.entries.count .waiter + s.runnable) + _
      omega
  | asked pc =>
      have same : workerShare (.addWaitor (.attempt (if s.ready then .returned false else .load))) =
          workerShare (.addWaitor .done) := by
        split
        · rfl
        · rfl
      rw [rights, rights, passedOn, passedOn, pc]
      simp only [same]
      rfl
  | @attempted attempt next promise choice pc moves =>
      rw [rights, rights, passedOn, passedOn, pc]
      change waiterShare s.waiter + (0 + workerShare (.addWaitor (.attempt next)) +
        promise.entries.count .waiter + s.runnable) + resumedTimes s.resumes =
          waiterShare s.waiter + (0 + workerShare (.addWaitor (.attempt attempt)) +
            s.promise.entries.count .waiter + s.runnable) + _
      rcases attempt_entries moves with ⟨same, registered⟩ | ⟨added, _, rfl, registered, _⟩
      · simp only [workerShare, registered, same]
      · have here : workerShare (.addWaitor (.attempt next)) = 0 := if_pos registered
        have was : workerShare (.addWaitor (.attempt .locked)) = 1 := rfl
        rw [here, was, added, List.count_append, List.count_singleton_self]
        omega
  | @resumed finish h rest pc listed =>
      rw [rights, rights, passedOn, passedOn, pc]
      change waiterShare s.waiter + (0 + 0 + s.promise.entries.tail.count .waiter + s.runnable) +
        resumedTimes (s.resumes ++ [⟨h, .waitor, s.submitted, s.ready⟩]) =
          waiterShare s.waiter + (0 + 0 + s.promise.entries.count .waiter + s.runnable) + _
      rw [listed, List.tail_cons, List.count_cons, resumedTimes, List.countP_append,
        List.countP_singleton]
      simp only [beq_iff_eq, decide_eq_true_eq, resumedTimes]
      omega
  | @drainLeft finish pc =>
      rw [rights, rights, passedOn, passedOn, pc]
      cases finish with
      | false => rfl
      | true => rfl

theorem registrar_rights {t : θ} (flags : Flags s) (step : RegistrarStep s t after) :
    rights after = rights s := by
  cases step with
  | begun _ _ | asked _ => rfl
  | @attempted attempt next promise got pc alive moves =>
      have count : (waiting promise.entries s.worker).count .waiter =
          (waiting s.promise.entries s.worker).count .waiter := by
        rcases attempt_entries moves with ⟨same, _⟩ | ⟨added, _, _, _, _⟩
        · rw [same]
        · have other : [Party.registrar t].count .waiter = 0 := List.count_eq_zero.mpr (by simp)
          rw [added]
          cases worker : s.worker with
          | drain finish stage =>
              cases stage with
              | resumed =>
                  have front := flags.front finish worker
                  simp only [waiting]
                  rw [List.tail_append_of_ne_nil front, List.count_append, other, Nat.add_zero]
              | lock | store | next | unlock =>
                  simp only [waiting]
                  rw [List.count_append, other, Nat.add_zero]
          | queued | creating | submitting | lockCallback | storeRan | runCallback | addWaitor _
          | unlockCallback | body | setValue | destroyBase | finished =>
              simp only [waiting]
              rw [List.count_append, other, Nat.add_zero]
      change waiterShare s.waiter + (callbackShare s.callback.entries s.worker +
        workerShare s.worker + (waiting promise.entries s.worker).count .waiter + s.runnable) + _ = _
      rw [count]
      rfl

theorem step_rights {move : Move θ} (flags : Flags s)
    (moves : (coroutineSystem θ).step s move after) : rights after = rights s := by
  cases move with
  | waiter got => exact waiter_rights flags (waiter_steps moves)
  | worker choice => exact worker_rights (worker_steps moves)
  | runnable =>
      obtain ⟨left, queued, rfl⟩ := runnable_steps moves
      have one := resumed_waiter s .runnable
      simp only [rights, passedOn, queued]
      rw [show ({ s.resume .waiter .runnable with runnable := left } : Pool θ).resumes =
        (s.resume .waiter .runnable).resumes from rfl, one]
      simp only [Pool.resume]
      omega
  | registrar t got => exact registrar_rights flags (registrar_steps moves)

/-- The awaiting coroutine is resumed at most once, and then the future of its
`coroutine_task` is set; once the coroutine has finished, the awaiting side has left
`await_suspend` and no handle is queued, it has been resumed. -/
theorem resumed_exactly_once (reached : Reachable (coroutineSystem θ) s) :
    resumedTimes s.resumes ≤ 1 ∧
    (∀ resume ∈ s.resumes, resume.party = .waiter → resume.submitted = true) ∧
    (s.worker = .finished → s.waiter = .suspended ∨ s.waiter = .resumed → s.runnable = 0 →
      resumedTimes s.resumes = 1) := by
  have kept : Flags s ∧ Submitted s ∧ rights s = 1 := by
    apply invariant _ _ reached
    · rintro state ⟨timepoint, rfl⟩
      exact ⟨⟨nofun, nofun, nofun, nofun⟩,
        ⟨nofun, nofun, nofun, fun queued => absurd rfl queued, nofun, nofun⟩, rfl⟩
    · rintro before move after ⟨flags, handed, one⟩ _ moves
      exact ⟨step_flags flags moves, step_submitted handed moves,
        (step_rights flags moves).trans one⟩
  obtain ⟨flags, handed, one⟩ := kept
  rw [rights] at one
  refine ⟨by omega, handed.resumes, ?_⟩
  intro finished left idle
  have share : waiterShare s.waiter = 0 := by
    rcases left with left | left
    · rw [left]
      rfl
    · rw [left]
      rfl
  have drained : s.promise.entries = [] := flags.drained (by rw [finished]; trivial)
  have spent : passedOn s = 0 := by
    rw [passedOn, finished, drained, idle]
    rfl
  omega

end Rights

def queuedStart : Pool Unit :=
  (afterMoves (fun _ _ => True) .coroutineStart
    (List.replicate 6 (.waiter true) ++ List.replicate 5 (.worker true) ++
      [.worker false, .runnable] ++ List.replicate 12 (.worker true))).get (by decide +kernel)

theorem resumed_exactly_once_queued : resumedTimes queuedStart.resumes = 1 :=
  (resumed_exactly_once (moves_reachable (by decide +kernel))).2.2 (by decide +kernel)
    (.inl (by decide +kernel)) (by decide +kernel)

end Npoller.ResumeOnce
