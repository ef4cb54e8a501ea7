import Npoller.EventLoop

/-!
No wake-up of the event loop is lost. A producer enqueues and then loads
`status`; the worker stores a status other than `working` before it drains the
queues and keeps it until `epoll_wait` has returned. So an item that arrives
after its queue was drained finds its producer still to signal, or its signal in
the pipe.
-/

namespace Npoller.WakeUp

open EventLoop StepSystem

variable {τ : Type*}

/-- The producer has enqueued and has not finished its check and pipe write. -/
def Signals : ProducerPc → Prop
  | .loading _ | .signalling _ => True
  | .idle | .counting _ | .pushing _ => False

def Signalled (s : Loop τ) : Prop := s.pipe ≠ [] ∨ ∃ p, Signals (s.producers p)

/-- From here to `epoll_wait` the worker looks at `ready_to_write` no more. -/
def WritesDrained : WorkerPc → Prop
  | .checkClose | .storeStop | .storeWaiting | .epollWait => True
  | _ => False

/-- From here to `epoll_wait` the worker looks at `task_list` no more. -/
def TasksDrained : WorkerPc → Prop
  | .emptyWrites | .popWrite | .running .emptyWrites => True
  | pc => WritesDrained pc

/-- Between the store of `ready_waiting` and the store of `working`. -/
def Resting : WorkerPc → Prop
  | .mergeTasks | .drainTasks | .running .mergeTasks | .running .drainTasks
  | .storeWorking _ => True
  | pc => TasksDrained pc

structure Woken (s : Loop τ) : Prop where
  rests : Resting s.worker → s.status ≠ .working
  tasks : TasksDrained s.worker → s.taskList ≠ [] → Signalled s
  writes : WritesDrained s.worker → s.readyToWrite ≠ [] → Signalled s

variable {s after : Loop τ}

theorem writes_after_tasks {pc : WorkerPc} (drained : WritesDrained pc) : TasksDrained pc := by
  cases pc <;> first | exact drained | exact drained.elim

theorem tasks_at_rest {pc : WorkerPc} (drained : TasksDrained pc) : Resting pc := by
  cases pc with
  | running next => cases next <;> first | exact drained | exact drained.elim
  | _ => first | exact drained | exact drained.elim

theorem awake_woken (awake : ¬Resting s.worker) : Woken s := by
  constructor
  · exact fun rests => (awake rests).elim
  · exact fun drained => (awake (tasks_at_rest drained)).elim
  · exact fun drained => (awake (tasks_at_rest (writes_after_tasks drained))).elim

theorem moved_woken {pc : WorkerPc} (woken : Woken s) (rests : Resting s.worker)
    (tasks : TasksDrained pc → TasksDrained s.worker ∨ s.taskList = [])
    (writes : WritesDrained pc → WritesDrained s.worker ∨ s.readyToWrite = []) :
    Woken { s with worker := pc } := by
  constructor
  · exact fun _ => woken.rests rests
  · intro drained pending
    rcases tasks drained with before | empty
    · exact woken.tasks before pending
    · exact (pending empty).elim
  · intro drained pending
    rcases writes drained with before | empty
    · exact woken.writes before pending
    · exact (pending empty).elim

theorem resume_woken {next : Next} (woken : Woken s) (pc : s.worker = .running next) :
    Woken { s with worker := next.pc } := by
  cases next with
  | mergeTasks | drainTasks =>
      exact moved_woken woken (by rw [pc]; trivial) (fun drained => drained.elim)
        (fun drained => drained.elim)
  | emptyWrites =>
      exact moved_woken woken (by rw [pc]; trivial) (fun _ => .inl (by rw [pc]; trivial))
        (fun drained => drained.elim)
  | dispatch events => exact awake_woken (fun rests => rests)

theorem start_woken {next : Next} {task : TaskId} (quiet : s.status ≠ .working)
    (early : ¬TasksDrained (.running next)) : Woken (s.startTask task next) := by
  constructor
  · exact fun _ => quiet
  · exact fun drained => (early drained).elim
  · exact fun drained => drained.elim

theorem worker_woken (woken : Woken s) (step : WorkerStep s after) : Woken after := by
  cases step with
  | storeReadyWaiting pc =>
      constructor
      · exact fun _ => Status.noConfusion
      · exact fun drained => drained.elim
      · exact fun drained => drained.elim
  | startLocal pc listed | startMerged pc listed =>
      have quiet := woken.rests (by rw [pc]; trivial)
      exact start_woken quiet (fun drained => drained)
  | startTask pc listed =>
      have quiet := woken.rests (by rw [pc]; trivial)
      exact start_woken quiet (fun drained => drained)
  | noLocal pc empty =>
      exact moved_woken woken (by rw [pc]; trivial) (fun drained => drained.elim)
        (fun drained => drained.elim)
  | noTask pc empty =>
      exact moved_woken woken (by rw [pc]; trivial) (fun _ => .inr empty)
        (fun drained => drained.elim)
  | noWrite pc empty =>
      exact moved_woken woken (by rw [pc]; trivial) (fun _ => .inl (by rw [pc]; trivial))
        (fun _ => .inr empty)
  | someWrite pc | missWrite pc =>
      exact moved_woken woken (by rw [pc]; trivial) (fun _ => .inl (by rw [pc]; trivial))
        (fun drained => drained.elim)
  | takeWrite pc listed =>
      constructor
      · exact fun _ => woken.rests (by rw [pc]; trivial)
      · exact fun _ => woken.tasks (by rw [pc]; trivial)
      · exact fun drained => drained.elim
  | resume pc => exact resume_woken woken pc
  | closes pc flag | stays pc flag =>
      exact moved_woken woken (by rw [pc]; trivial) (fun _ => .inl (by rw [pc]; trivial))
        (fun _ => .inl (by rw [pc]; trivial))
  | storeWaiting pc =>
      constructor
      · exact fun _ => Status.noConfusion
      · exact fun _ => woken.tasks (by rw [pc]; trivial)
      · exact fun _ => woken.writes (by rw [pc]; trivial)
  | poll pc ready =>
      exact moved_woken woken (by rw [pc]; trivial) (fun drained => drained.elim)
        (fun drained => drained.elim)
  | storeWorking pc =>
      rename_i polled
      cases polled <;> exact awake_woken (fun rests => rests)
  | storeStop pc | throws pc stuck | batchDone pc | readPipe pc listed | readNothing pc empty
  | processIo pc | loadStatus pc => exact awake_woken (fun rests => rests)
  | callTask pc =>
      exact ⟨woken.rests, woken.tasks, woken.writes⟩
  | callWrite fd pc =>
      -- the callback's io is drained later: no `running` point is past that loop
      constructor
      · exact woken.rests
      · exact woken.tasks
      · intro drained
        rw [pc] at drained
        exact drained.elim

section Producers
variable [DecidableEq τ] {capacity : Nat} {p : τ}

theorem signalled_set {pc : ProducerPc} (kept : Signals (s.producers p) → Signals pc)
    (signalled : Signalled s) : Signalled (s.setProducer p pc) := by
  rcases signalled with bytes | ⟨q, signals⟩
  · exact .inl bytes
  · refine .inr ⟨q, ?_⟩
    by_cases same : q = p
    · subst same
      simpa [Loop.setProducer] using kept signals
    · simpa [Loop.setProducer, same] using signals

theorem signalled_now {pc : ProducerPc} (signals : Signals pc) :
    Signalled (s.setProducer p pc) :=
  .inr ⟨p, by simpa [Loop.setProducer] using signals⟩

theorem write_pipe_nonempty {byte : Signal} {pipe : List Signal} (roomy : 0 < capacity) :
    writePipe capacity byte pipe ≠ [] := by
  unfold writePipe
  by_cases room : pipe.length < capacity
  · simp [room]
  · rw [if_neg room]
    rintro rfl
    exact room roomy

theorem step_aside {pc : ProducerPc} (woken : Woken s)
    (kept : Signals (s.producers p) → Signals pc) : Woken (s.setProducer p pc) := by
  constructor
  · exact woken.rests
  · exact fun drained pending => signalled_set kept (woken.tasks drained pending)
  · exact fun drained pending => signalled_set kept (woken.writes drained pending)

theorem producer_woken (roomy : 0 < capacity) (woken : Woken s)
    (step : ProducerStep capacity s p after) : Woken after := by
  cases step with
  | callTask pc =>
      have aside : Woken (s.setProducer p (.counting s.nextTask)) :=
        step_aside woken (fun signals => by rw [pc] at signals; exact signals.elim)
      exact ⟨aside.rests, aside.tasks, aside.writes⟩
  | callWrite fd pc =>
      exact step_aside woken (fun signals => by rw [pc] at signals; exact signals.elim)
  | count pc =>
      rename_i task
      have aside : Woken (s.setProducer p (.pushing (.task task))) :=
        step_aside woken (fun signals => by rw [pc] at signals; exact signals.elim)
      exact ⟨aside.rests, aside.tasks, aside.writes⟩
  | pushTask pc =>
      rename_i task
      have signalled : Signalled (s.setProducer p (.loading (.task task))) := signalled_now trivial
      exact ⟨woken.rests, fun _ _ => signalled, fun _ _ => signalled⟩
  | pushWrite pc =>
      rename_i fd
      have signalled : Signalled (s.setProducer p (.loading (.write fd))) := signalled_now trivial
      exact ⟨woken.rests, fun _ _ => signalled, fun _ _ => signalled⟩
  | skip pc works =>
      rename_i item
      have awake : ¬Resting s.worker := fun rests => woken.rests rests works
      cases item <;> exact awake_woken awake
  | alert pc rests => exact step_aside woken (fun _ => trivial)
  | signal pc =>
      rename_i item
      have signalled : ({ s with pipe := writePipe capacity .task s.pipe } : Loop τ).pipe ≠ [] :=
        write_pipe_nonempty roomy
      cases item <;> exact ⟨woken.rests, fun _ _ => .inl signalled, fun _ _ => .inl signalled⟩

omit [DecidableEq τ] in
theorem closer_woken (woken : Woken s) (step : CloserStep capacity s after) : Woken after := by
  cases step with
  | store pc =>
      constructor
      · exact fun _ => Status.noConfusion
      · exact woken.tasks
      · exact woken.writes
  | write pc room =>
      have signalled : Signalled { s with pipe := s.pipe ++ [.close], closer := .joining } :=
        .inl (by simp)
      exact ⟨woken.rests, fun _ _ => signalled, fun _ _ => signalled⟩
  | call pc | stopped pc | proceed pc | full pc | join pc =>
      exact ⟨woken.rests, woken.tasks, woken.writes⟩

/-- At `epoll_wait` a waiting task or io has its byte in the pipe, or a producer
that has enqueued and is not through with its check and write. -/
theorem no_lost_wakeup (roomy : 0 < capacity) (reached : Reachable (loopSystem τ capacity) s)
    (waits : s.worker = .epollWait) (pending : s.taskList ≠ [] ∨ s.readyToWrite ≠ []) :
    s.pipe ≠ [] ∨ ∃ p, Signals (s.producers p) := by
  have woken : Woken s := by
    apply loop_invariant _ _ _ _ reached
    · exact awake_woken (fun rests => rests)
    · exact fun _ _ holds step => worker_woken holds step
    · exact fun _ _ _ holds step => producer_woken roomy holds step
    · exact fun _ _ holds step => closer_woken holds step
  have drained : WritesDrained s.worker := by
    rw [waits]
    trivial
  rcases pending with tasks | writes
  · exact woken.tasks (writes_after_tasks drained) tasks
  · exact woken.writes drained writes

end Producers

def enqueued : Loop Unit :=
  (afterMoves 65536 [.worker .advance, .worker .advance, .worker .advance, .worker .advance,
    .worker .advance, .worker .advance, .producer () .callTask, .producer () .advance,
    .producer () .advance]).get (by decide +kernel)

theorem no_lost_wakeup_enqueued : enqueued.pipe ≠ [] ∨ ∃ p, Signals (enqueued.producers p) :=
  no_lost_wakeup (by decide : 0 < 65536) (moves_reachable (by decide +kernel))
    (by decide +kernel) (.inl (by decide +kernel))

end Npoller.WakeUp
