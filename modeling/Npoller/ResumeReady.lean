import Npoller.CoroutineLocks

/-!
Whether the result is there when `resume_all_waitor` resumes a coroutine. The call of
`return_value` comes after `set_value`. The one of the destructor comes before the
base `std::promise` is destroyed, which stores `broken_promise` where no value has
been set; so a coroutine that ends by an exception resumes its waiters on the thread
that would have to go on for the result to be there.
-/

namespace Npoller.ResumeReady

open CoroutinePool DoubleChecked StepSystem

variable {θ : Type*}

/-- The destructor of the promise finds no waiter unless the result is there. -/
def EndsReady (s : Pool θ) : Move θ → Prop
  | .worker _ => s.worker = .drain true .lock → s.ready = true ∨ s.promise.entries = []
  | _ => True

instance [DecidableEq θ] (s : Pool θ) (move : Move θ) : Decidable (EndsReady s move) := by
  unfold EndsReady
  split <;> infer_instance

/-- While `resume_all_waitor` runs either the result is there or nobody waits. -/
structure Covered (s : Pool θ) : Prop where
  locks : Locks s
  value : ∀ pc, s.worker = .drain false pc → s.ready = true
  ending : ∀ pc, s.worker = .drain true pc → pc ≠ .lock →
    s.ready = true ∨ s.promise.entries = []
  resumes : ∀ resume ∈ s.resumes, resume.way = .waitor → resume.ready = true

variable {s after : Pool θ}

theorem resume_covered {party : Party θ} {way : Way} (covered : Covered s)
    (ready : way = .waitor → s.ready = true) :
    ∀ resume ∈ (s.resume party way).resumes, resume.way = .waitor → resume.ready = true := by
  intro resume member waits
  rcases List.mem_append.mp member with earlier | new
  · exact covered.resumes resume earlier waits
  · rw [List.mem_singleton.mp new] at waits ⊢
    exact ready waits

theorem after_ready_covered {turn : Option Nat} {ready : Bool} (covered : Covered s)
    (locks : Locks (s.afterReady turn ready)) : Covered (s.afterReady turn ready) := by
  rcases after_ready_cases s turn ready with ⟨_, way, other, goes⟩ | ⟨pc, _, goes⟩
  · rw [goes] at locks ⊢
    exact ⟨locks, covered.value, covered.ending,
      resume_covered covered (fun waits => absurd waits other)⟩
  · rw [goes] at locks ⊢
    exact ⟨locks, covered.value, covered.ending, covered.resumes⟩

theorem waiter_covered (covered : Covered s) (step : WaiterStep s after) : Covered after := by
  have locks := waiter_locks covered.locks step
  cases step with
  | absent _ | checked _ => exact after_ready_covered covered locks
  | started pc _ =>
      have fetched : Covered { s with returnValue := true } :=
        ⟨⟨covered.locks.callback, covered.locks.promise⟩, covered.value, covered.ending,
          covered.resumes⟩
      exact after_ready_covered fetched locks
  | fetched _ _ | attempted _ _ | unset _ | suspended _ | waited _ _ =>
      exact ⟨locks, covered.value, covered.ending, covered.resumes⟩

theorem stage_covered {finish : Bool} {stage : DrainPc} {promise : Cell (Party θ) (Party θ)}
    (covered : Covered s) (locks : Locks { s with promise, worker := .drain finish stage })
    (value : finish = false → s.ready = true)
    (ending : finish = true → s.ready = true ∨ promise.entries = []) :
    Covered { s with promise, worker := .drain finish stage } := by
  refine ⟨locks, ?_, ?_, covered.resumes⟩
  · intro pc at_
    cases at_
    exact value rfl
  · intro pc at_ _
    cases at_
    exact ending rfl

theorem worker_covered (covered : Covered s)
    (allowed : s.worker = .drain true .lock → s.ready = true ∨ s.promise.entries = [])
    (step : WorkerStep s after) : Covered after := by
  have locks := worker_locks covered.locks step
  cases step with
  | begun _ | created _ | submitted _ | entered _ _ | ran _ | skipped _ _ | queued _ _
  | passedOn _ _ | waiting _ | notWaiting _ | asked _ | attempted _ _ | left _ | returned _
  | destroyed _ => exact ⟨locks, nofun, nofun, covered.resumes⟩
  | called _ _ =>
      exact ⟨locks, nofun, nofun, resume_covered covered nofun⟩
  | threw _ =>
      refine ⟨locks, nofun, ?_, covered.resumes⟩
      intro pc at_ away
      cases at_
      exact absurd rfl away
  | valued _ => exact ⟨locks, fun _ _ => rfl, nofun, covered.resumes⟩
  | @drainLocked finish pc _ =>
      apply stage_covered covered locks
      · rintro rfl
        exact covered.value _ pc
      · rintro rfl
        exact allowed pc
  | @drainStored finish pc | @drained finish pc _ =>
      apply stage_covered covered locks
      · rintro rfl
        exact covered.value _ pc
      · rintro rfl
        exact covered.ending _ pc nofun
  | @resumed finish h rest pc listed =>
      have ready : s.ready = true := by
        cases finish with
        | false => exact covered.value _ pc
        | true =>
            rcases covered.ending _ pc nofun with ready | vacant
            · exact ready
            · rw [listed] at vacant
              cases vacant
      exact ⟨locks, fun _ _ => ready, fun _ _ _ => .inl ready,
        resume_covered covered (fun _ => ready)⟩
  | popped _ ready => exact ⟨locks, fun _ _ => ready, fun _ _ _ => .inl ready, covered.resumes⟩
  | @drainLeft finish pc =>
      refine ⟨locks, ?_, ?_, covered.resumes⟩
      · intro stage at_
        cases finish with
        | false => cases at_
        | true => cases at_
      · intro stage at_ away
        cases finish with
        | false =>
            cases at_
            exact absurd rfl away
        | true => cases at_

theorem registrar_covered [DecidableEq θ] {t : θ} (covered : Covered s)
    (step : RegistrarStep s t after) : Covered after := by
  have locks := registrar_locks covered.locks step
  cases step with
  | begun _ _ | asked _ => exact ⟨locks, covered.value, covered.ending, covered.resumes⟩
  | attempted pc _ moves =>
      refine ⟨locks, covered.value, ?_, covered.resumes⟩
      intro stage at_ away
      have drains : s.worker = .drain true stage := at_
      rcases attempt_entries moves with ⟨same, _⟩ | ⟨_, _, inside, _⟩
      · have earlier := covered.ending stage drains away
        rw [← same] at earlier
        exact earlier
      · -- a registrar that adds an entry holds the mutex, which the worker holds here
        have mine : s.promise.holder = some (.registrar t) := by
          apply (covered.locks.promise _).mpr
          rw [InPromise, pc, inside]
          exact trivial
        have its : s.promise.holder = some .worker := by
          apply (covered.locks.promise _).mpr
          rw [InPromise, drains]
          cases stage with
          | lock => exact absurd rfl away
          | store | next | resumed | unlock => exact trivial
        rw [mine] at its
        cases its

theorem step_covered [DecidableEq θ] {move : Move θ} (covered : Covered s)
    (allowed : EndsReady s move) (moves : (coroutineSystem θ).step s move after) :
    Covered after := by
  cases move with
  | waiter got => exact waiter_covered covered (waiter_steps moves)
  | worker choice => exact worker_covered covered allowed (worker_steps moves)
  | runnable =>
      have locks := step_locks covered.locks moves
      obtain ⟨left, _, rfl⟩ := runnable_steps moves
      exact ⟨locks, covered.value, covered.ending, resume_covered covered nofun⟩
  | registrar t got => exact registrar_covered covered (registrar_steps moves)

/-- Where no coroutine ends without a result while somebody waits for it, every handle
that `resume_all_waitor` resumes finds the result. -/
theorem resumed_when_ready [DecidableEq θ]
    (reached : ReachableBy (coroutineSystem θ) EndsReady s) :
    ∀ resume ∈ s.resumes, resume.way = .waitor → resume.ready = true := by
  have covered : Covered s := by
    apply invariant _ _ reached
    · rintro state ⟨timepoint, rfl⟩
      exact ⟨submit_locks timepoint, nofun, nofun, nofun⟩
    · exact fun _ _ _ holds allowed moves => step_covered holds allowed moves
  exact covered.resumes

/-- The result is missing and somebody waits: the worker resumes a waiter without its
result and goes no further. -/
theorem early_resume_blocks (at_ : s.worker = .drain true .lock) (free : s.promise.holder = none)
    {h : Party θ} {rest : List (Party θ)} (listed : s.promise.entries = h :: rest)
    (missing : s.ready = false) :
    ∃ after, [true, true, true].foldlM workerMove s = some after ∧
      (∃ resume ∈ after.resumes, resume.way = .waitor ∧ resume.ready = false) ∧
      ∀ choice, workerMove after choice = none := by
  let locked : Pool θ := { s with promise := { s.promise with holder := some .worker }
                                  worker := .drain true .store }
  let stored : Pool θ := { s with promise := { s.promise with holder := some .worker, flag := true }
                                  worker := .drain true .next }
  let early : Pool θ := { stored.resume h .waitor with worker := .drain true .resumed }
  have locks : workerMove s true = some locked := by
    rw [workerMove, at_]
    simp only [drainMove, free, Option.isNone_none, if_true, locked]
  have stores : workerMove locked true = some stored := by
    simp only [workerMove, drainMove, locked, stored, Bool.or_true]
  have resumes : workerMove stored true = some early := by
    simp only [workerMove, drainMove, stored, early, listed]
  refine ⟨early, ?_, ?_, ?_⟩
  · rw [List.foldlM_cons, locks]
    change [true, true].foldlM workerMove locked = some early
    rw [List.foldlM_cons, stores]
    change [true].foldlM workerMove stored = some early
    rw [List.foldlM_cons, resumes]
    rfl
  · exact ⟨_, List.mem_append_right _ (List.mem_singleton_self _), rfl, missing⟩
  · intro choice
    have still : early.ready = false := missing
    simp only [workerMove, drainMove, early]
    rw [if_neg (ne_true_of_eq_false still)]

def untilBody : List (Move Unit) :=
  [.waiter true, .waiter true, .waiter true, .waiter true, .waiter true, .waiter true] ++
    List.replicate 13 (.worker true)

def returned : Pool Unit :=
  (afterMoves EndsReady .coroutineEnd (untilBody ++ List.replicate 13 (.worker true))).get
    (by decide +kernel)

theorem resumed_when_ready_returned : returned.resumes.map Resume.way = [.waitor] ∧
    returned.resumes.all (fun resume => resume.way = .waitor → resume.ready = true) := by
  have ready := resumed_when_ready (s := returned) (moves_reachable (by decide +kernel))
  refine ⟨by decide +kernel, List.all_eq_true.mpr ?_⟩
  exact fun resume member => decide_eq_true (ready resume member)

/-- A body that ends by an exception: the destructor resumes the waiter first and
would have the future broken afterwards. -/
def threw : Pool Unit :=
  (afterMoves (fun _ _ => True) .coroutineEnd
    (untilBody ++ .worker false :: List.replicate 3 (.worker true))).get (by decide +kernel)

theorem resumed_too_early : Reachable (coroutineSystem Unit) threw ∧
    threw.resumes.map (fun resume => (resume.way, resume.ready)) = [(.waitor, false)] :=
  ⟨moves_reachable (by decide +kernel), by decide +kernel⟩

end Npoller.ResumeReady
