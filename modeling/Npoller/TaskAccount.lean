import Mathlib.Data.List.Nodup
import Npoller.EventLoop

/-!
What becomes of every task. A task is held by one producer until it is in
`task_list`, and `process_task_queue` takes it from there once. `add_task` on the
worker thread counts the task and puts it nowhere; such a task is never started.
-/

namespace Npoller.TaskAccount

open EventLoop StepSystem

variable {τ : Type*}

/-- The tasks that `add_task` has enqueued, in that order. -/
def handled (s : Loop τ) : List TaskId := s.started ++ s.taskList

def waiting (s : Loop τ) : List TaskId := s.taskList ++ s.localTaskList.map Prod.fst

/-- Waiting once or started once, and not both. -/
def Once (s : Loop τ) (task : TaskId) : Prop :=
  (waiting s).count task + s.started.count task = 1

def Holds : ProducerPc → TaskId → Prop
  | .counting held, task | .pushing (.task held), task => held = task
  | _, _ => False

def Enqueued : ProducerPc → TaskId → Prop
  | .loading (.task held), task | .signalling (.task held), task => held = task
  | _, _ => False

structure Accounted (s : Loop τ) : Prop where
  noLocal : s.localTaskList = []
  once : (handled s).Nodup
  known : ∀ task ∈ handled s, task < s.nextTask
  held : ∀ p task, Holds (s.producers p) task → task < s.nextTask ∧ task ∉ handled s
  apart : ∀ p q task, Holds (s.producers p) task → Holds (s.producers q) task → p = q
  enqueued : ∀ p task, Enqueued (s.producers p) task → task ∈ handled s
  foreign : ∀ call ∈ s.returned, call.byWorker = false → call.task ∈ handled s
  dropped : ∀ call ∈ s.returned, call.byWorker = true → call.task < s.nextTask ∧
    call.task ∉ handled s ∧ ∀ p, ¬Holds (s.producers p) call.task

variable {s after : Loop τ}

theorem unchanged_accounted (accounted : Accounted s) (locals : after.localTaskList = s.localTaskList)
    (tasks : handled after = handled s) (next : after.nextTask = s.nextTask)
    (producers : after.producers = s.producers) (returned : after.returned = s.returned) :
    Accounted after := by
  constructor
  · exact locals.trans accounted.noLocal
  · rw [tasks]
    exact accounted.once
  · rw [tasks, next]
    exact accounted.known
  · rw [tasks, next, producers]
    exact accounted.held
  · rw [producers]
    exact accounted.apart
  · rw [tasks, producers]
    exact accounted.enqueued
  · rw [tasks, returned]
    exact accounted.foreign
  · rw [tasks, next, producers, returned]
    exact accounted.dropped

theorem start_handled {task : TaskId} {tasks : List TaskId} {next : Next}
    (listed : s.taskList = task :: tasks) :
    handled ({ s with taskList := tasks }.startTask task next) = handled s := by
  simp [handled, Loop.startTask, listed]

theorem worker_call_accounted (accounted : Accounted s) (index : Nat) :
    Accounted { s with
      taskIndex := index
      nextTask := s.nextTask + 1
      returned := ⟨s.nextTask, true⟩ :: s.returned } := by
  constructor
  · exact accounted.noLocal
  · exact accounted.once
  · exact fun task member => Nat.lt_succ_of_lt (accounted.known task member)
  · intro p task holds
    exact ⟨Nat.lt_succ_of_lt (accounted.held p task holds).1, (accounted.held p task holds).2⟩
  · exact accounted.apart
  · exact accounted.enqueued
  · intro call member own
    rcases List.mem_cons.mp member with rfl | old
    · cases own
    · exact accounted.foreign call old own
  · intro call member own
    rcases List.mem_cons.mp member with rfl | old
    · refine ⟨Nat.lt_succ_self _, ?_, ?_⟩
      · exact fun inside => Nat.lt_irrefl _ (accounted.known _ inside)
      · exact fun p holds => Nat.lt_irrefl _ (accounted.held p _ holds).1
    · have lost := accounted.dropped call old own
      exact ⟨Nat.lt_succ_of_lt lost.1, lost.2⟩

theorem worker_accounted (accounted : Accounted s) (step : WorkerStep s after) :
    Accounted after := by
  cases step with
  | startLocal pc listed =>
      rw [accounted.noLocal] at listed
      cases listed
  | startMerged pc listed | startTask pc listed =>
      exact unchanged_accounted accounted rfl (start_handled listed) rfl rfl rfl
  | callTask pc => exact worker_call_accounted accounted _
  | storeReadyWaiting pc | noLocal pc empty | throws pc stuck | noTask pc empty | noWrite pc empty
  | someWrite pc | takeWrite pc listed | missWrite pc | resume pc | closes pc flag | stays pc flag
  | storeStop pc | storeWaiting pc | poll pc ready | storeWorking pc | batchDone pc
  | readPipe pc listed | readNothing pc empty | processIo pc | loadStatus pc | callWrite fd pc =>
      exact unchanged_accounted accounted rfl rfl rfl rfl rfl

section Producers
variable [DecidableEq τ] {capacity : Nat} {p : τ}

theorem producer_set (q : τ) (pc : ProducerPc) :
    (s.setProducer p pc).producers q = if q = p then pc else s.producers q := by
  simp [Loop.setProducer, Function.update_apply]

theorem set_accounted {pc : ProducerPc} (accounted : Accounted s)
    (holds : ∀ task, Holds pc task → Holds (s.producers p) task)
    (enqueued : ∀ task, Enqueued pc task → task ∈ handled s) :
    Accounted (s.setProducer p pc) := by
  have before : ∀ q task, Holds ((s.setProducer p pc).producers q) task →
      Holds (s.producers q) task := by
    intro q task
    rw [producer_set]
    by_cases same : q = p
    · subst same
      rw [if_pos rfl]
      exact holds task
    · rw [if_neg same]
      exact fun old => old
  constructor
  · exact accounted.noLocal
  · exact accounted.once
  · exact accounted.known
  · exact fun q task now => accounted.held q task (before q task now)
  · exact fun q r task left right =>
      accounted.apart q r task (before q task left) (before r task right)
  · intro q task
    rw [producer_set]
    by_cases same : q = p
    · rw [if_pos same]
      exact enqueued task
    · rw [if_neg same]
      exact accounted.enqueued q task
  · exact accounted.foreign
  · intro call member own
    have lost := accounted.dropped call member own
    exact ⟨lost.1, lost.2.1, fun q now => lost.2.2 q (before q _ now)⟩

theorem call_task_accounted (accounted : Accounted s) :
    Accounted { s.setProducer p (.counting s.nextTask) with nextTask := s.nextTask + 1 } := by
  have cases_ : ∀ q task, Holds ((s.setProducer p (.counting s.nextTask)).producers q) task →
      (q = p ∧ s.nextTask = task) ∨ Holds (s.producers q) task := by
    intro q task now
    rw [producer_set] at now
    by_cases same : q = p
    · rw [if_pos same] at now
      exact .inl ⟨same, now⟩
    · rw [if_neg same] at now
      exact .inr now
  constructor
  · exact accounted.noLocal
  · exact accounted.once
  · exact fun task member => Nat.lt_succ_of_lt (accounted.known task member)
  · intro q task now
    rcases cases_ q task now with ⟨-, rfl⟩ | old
    · exact ⟨Nat.lt_succ_self _, fun inside => Nat.lt_irrefl _ (accounted.known _ inside)⟩
    · exact ⟨Nat.lt_succ_of_lt (accounted.held q task old).1, (accounted.held q task old).2⟩
  · intro q r task left right
    rcases cases_ q task left with ⟨rfl, rfl⟩ | old
    · rcases cases_ r _ right with ⟨rfl, -⟩ | other
      · rfl
      · exact (Nat.lt_irrefl _ (accounted.held r _ other).1).elim
    · rcases cases_ r task right with ⟨rfl, rfl⟩ | other
      · exact (Nat.lt_irrefl _ (accounted.held q _ old).1).elim
      · exact accounted.apart q r task old other
  · intro q task
    change Enqueued ((s.setProducer p (.counting s.nextTask)).producers q) task → task ∈ handled s
    rw [producer_set]
    by_cases same : q = p
    · rw [if_pos same]
      exact fun never => never.elim
    · rw [if_neg same]
      exact accounted.enqueued q task
  · exact accounted.foreign
  · intro call member own
    have lost := accounted.dropped call member own
    refine ⟨Nat.lt_succ_of_lt lost.1, lost.2.1, ?_⟩
    intro q now
    rcases cases_ q _ now with ⟨-, same⟩ | old
    · exact Nat.ne_of_gt lost.1 same
    · exact lost.2.2 q old

theorem push_task_accounted {task : TaskId} (accounted : Accounted s)
    (pc : s.producers p = .pushing (.task task)) :
    Accounted { s.setProducer p (.loading (.task task)) with taskList := s.taskList ++ [task] } := by
  have own : Holds (s.producers p) task := by
    rw [pc]
    rfl
  have grown : handled { s.setProducer p (.loading (.task task)) with
      taskList := s.taskList ++ [task] } = handled s ++ [task] :=
    (List.append_assoc _ _ _).symm
  have before : ∀ q other, Holds ((s.setProducer p (.loading (.task task))).producers q) other →
      q ≠ p ∧ Holds (s.producers q) other := by
    intro q other now
    rw [producer_set] at now
    by_cases same : q = p
    · rw [if_pos same] at now
      exact now.elim
    · rw [if_neg same] at now
      exact ⟨same, now⟩
  constructor
  · exact accounted.noLocal
  · rw [grown]
    exact List.nodup_append.mpr ⟨accounted.once, List.nodup_singleton task, by
      rintro left member right single rfl
      rw [List.mem_singleton.mp single] at member
      exact (accounted.held p task own).2 member⟩
  · rw [grown]
    intro other member
    rcases List.mem_append.mp member with old | new
    · exact accounted.known other old
    · rw [List.mem_singleton.mp new]
      exact (accounted.held p task own).1
  · rw [grown]
    intro q other now
    obtain ⟨different, old⟩ := before q other now
    refine ⟨(accounted.held q other old).1, ?_⟩
    intro member
    rcases List.mem_append.mp member with inside | new
    · exact (accounted.held q other old).2 inside
    · rw [List.mem_singleton.mp new] at old
      exact different (accounted.apart q p task old own)
  · exact fun q r other left right =>
      accounted.apart q r other (before q other left).2 (before r other right).2
  · rw [grown]
    intro q other
    change Enqueued ((s.setProducer p (.loading (.task task))).producers q) other → _
    rw [producer_set]
    by_cases same : q = p
    · rw [if_pos same]
      rintro rfl
      exact List.mem_append_right _ List.mem_cons_self
    · rw [if_neg same]
      exact fun old => List.mem_append_left _ (accounted.enqueued q other old)
  · rw [grown]
    exact fun call member foreign => List.mem_append_left _ (accounted.foreign call member foreign)
  · rw [grown]
    intro call member byWorker
    have lost := accounted.dropped call member byWorker
    refine ⟨lost.1, ?_, fun q now => lost.2.2 q (before q _ now).2⟩
    intro inside
    rcases List.mem_append.mp inside with old | new
    · exact lost.2.1 old
    · rw [← List.mem_singleton.mp new] at own
      exact lost.2.2 p own

theorem finish_accounted {item : Item} (accounted : Accounted s)
    (enqueued : ∀ task, item = .task task → task ∈ handled s) :
    Accounted (s.finishCall p item) := by
  have idle : Accounted (s.setProducer p .idle) :=
    set_accounted accounted (fun _ never => never.elim) (fun _ never => never.elim)
  cases item with
  | write fd => exact idle
  | task task =>
      constructor
      · exact idle.noLocal
      · exact idle.once
      · exact idle.known
      · exact idle.held
      · exact idle.apart
      · exact idle.enqueued
      · intro call member own
        rcases List.mem_cons.mp member with rfl | old
        · exact enqueued task rfl
        · exact idle.foreign call old own
      · intro call member own
        rcases List.mem_cons.mp member with rfl | old
        · cases own
        · exact idle.dropped call old own

theorem producer_accounted (accounted : Accounted s) (step : ProducerStep capacity s p after) :
    Accounted after := by
  have mine := accounted.enqueued p
  cases step with
  | callTask pc => exact call_task_accounted accounted
  | callWrite fd pc =>
      exact set_accounted accounted (fun _ never => never.elim) (fun _ never => never.elim)
  | count pc =>
      rename_i task
      have moved : Accounted (s.setProducer p (.pushing (.task task))) :=
        set_accounted accounted (fun _ same => by rw [pc]; exact same) (fun _ never => never.elim)
      exact unchanged_accounted moved rfl rfl rfl rfl rfl
  | pushTask pc => exact push_task_accounted accounted pc
  | pushWrite pc =>
      rename_i fd
      have moved : Accounted (s.setProducer p (.loading (.write fd))) :=
        set_accounted accounted (fun _ never => never.elim) (fun _ never => never.elim)
      exact unchanged_accounted moved rfl rfl rfl rfl rfl
  | skip pc works =>
      apply finish_accounted accounted
      rintro task rfl
      apply mine
      rw [pc]
      rfl
  | alert pc rests =>
      rename_i item
      rw [pc] at mine
      cases item <;> exact set_accounted accounted (fun _ never => never.elim) mine
  | signal pc =>
      have piped : Accounted { s with pipe := writePipe capacity .task s.pipe } :=
        unchanged_accounted accounted rfl rfl rfl rfl rfl
      apply finish_accounted piped
      rintro task rfl
      apply mine
      rw [pc]
      rfl

omit [DecidableEq τ] in
theorem closer_accounted (accounted : Accounted s) (step : CloserStep capacity s after) :
    Accounted after := by
  cases step <;> exact unchanged_accounted accounted rfl rfl rfl rfl rfl

omit [DecidableEq τ] in
theorem start_accounted : Accounted (Loop.start : Loop τ) := by
  constructor
  · rfl
  · exact List.nodup_nil
  · exact fun _ member => (List.not_mem_nil member).elim
  · exact fun _ _ holds => holds.elim
  · exact fun _ _ _ holds => holds.elim
  · exact fun _ _ inside => inside.elim
  · exact fun _ member => (List.not_mem_nil member).elim
  · exact fun _ member => (List.not_mem_nil member).elim

omit [DecidableEq τ] in
theorem once_iff_handled (accounted : Accounted s) (task : TaskId) :
    Once s task ↔ task ∈ handled s := by
  have total : (waiting s).count task + s.started.count task = (handled s).count task := by
    rw [waiting, accounted.noLocal, List.map_nil, List.append_nil, handled, List.count_append,
      Nat.add_comm]
  rw [Once, total]
  constructor
  · intro one
    exact List.count_pos_iff.mp (by omega)
  · exact fun member => List.count_eq_one_of_mem accounted.once member

/-- In every reachable state a task whose `add_task` has returned is waiting once
or started once, and not both, exactly when another thread than the worker made
the call. -/
theorem task_once_iff_foreign (reached : Reachable (loopSystem τ capacity) s) :
    ∀ call ∈ s.returned, (Once s call.task ↔ call.byWorker = false) := by
  have accounted : Accounted s := by
    apply loop_invariant start_accounted _ _ _ reached
    · exact fun _ _ holds step => worker_accounted holds step
    · exact fun _ _ _ holds step => producer_accounted holds step
    · exact fun _ _ holds step => closer_accounted holds step
  intro call member
  rw [once_iff_handled accounted]
  constructor
  · intro inside
    cases own : call.byWorker with
    | false => rfl
    | true => exact ((accounted.dropped call member own).2.1 inside).elim
  · exact accounted.foreign call member

end Producers

def nestedTask : Loop Unit :=
  (afterMoves 65536 [.producer () .callTask, .producer () .advance, .producer () .advance,
    .producer () .advance, .worker .advance, .worker .advance, .worker .advance,
    .worker .addTask]).get (by decide +kernel)

theorem nested_task_reachable : Reachable (loopSystem Unit 65536) nestedTask :=
  moves_reachable (by decide +kernel)

theorem task_once_iff_foreign_nested : Reachable (loopSystem Unit 65536) nestedTask ∧
    ⟨0, false⟩ ∈ nestedTask.returned ∧ (Once nestedTask 0 ↔ false = false) :=
  ⟨nested_task_reachable, by decide +kernel,
    task_once_iff_foreign nested_task_reachable ⟨0, false⟩ (by decide +kernel)⟩

/-- The added task has number 1; its call has returned and it is nowhere. -/
theorem task_of_worker_dropped : Reachable (loopSystem Unit 65536) nestedTask ∧
    ⟨1, true⟩ ∈ nestedTask.returned ∧ ¬Once nestedTask 1 :=
  ⟨nested_task_reachable, by decide +kernel, by unfold Once; decide +kernel⟩

end Npoller.TaskAccount
