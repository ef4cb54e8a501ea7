import Mathlib.Data.List.Nodup
import Npoller.ThreadPool

/-!
No task is left behind. A worker leaves only after it has seen `stop` and found the
queue empty; whoever runs a task is therefore still there to take what that task
has enqueued. So while a task is queued some worker has not returned, and when the
destructor has joined all of them each task has run once.
-/

namespace Npoller.PoolTasks

open ThreadPool StepSystem

variable {n : Nat}

def queuedIds (s : Pool n) : List TaskId := s.tasks.flatMap Item.ids

/-- The tasks that no worker holds. -/
def placed (s : Pool n) : List TaskId := s.executed ++ queuedIds s

def Runs : WorkerPc → TaskId → Prop
  | .running item, id | .runningDrain item, id => id ∈ item.ids
  | _, _ => False

structure Accounted (s : Pool n) : Prop where
  distinct : (placed s).Nodup
  known : ∀ id ∈ placed s, id < s.nextTask
  running : ∀ w id, Runs (s.workers w) id → id < s.nextTask ∧ id ∉ placed s
  apart : ∀ v w id, Runs (s.workers v) id → Runs (s.workers w) id → v = w
  covered : ∀ id < s.nextTask, id ∈ placed s ∨ ∃ w, Runs (s.workers w) id

variable {s : Pool n} {w : Fin n} {item : Item}

theorem ids_nodup (item : Item) : item.ids.Nodup := by
  cases item with
  | task id => exact List.nodup_singleton id
  | empty => exact List.nodup_nil

theorem start_accounted : Accounted (Pool.construct : Pool n) := by
  constructor
  · exact List.nodup_nil
  · exact fun _ member => (List.not_mem_nil member).elim
  · exact fun _ _ runs => runs.elim
  · exact fun _ _ _ runs => runs.elim
  · exact fun _ before => (Nat.not_lt_zero _ before).elim

theorem enqueue_accounted (accounted : Accounted s) : Accounted s.enqueue := by
  have grown : placed s.enqueue = placed s ++ [s.nextTask] := by
    simp [placed, queuedIds, Pool.enqueue, Item.ids]
  have fresh : s.nextTask ∉ placed s := fun member => Nat.lt_irrefl _ (accounted.known _ member)
  constructor
  · rw [grown]
    apply List.nodup_append.mpr
    refine ⟨accounted.distinct, List.nodup_singleton _, ?_⟩
    intro id member last single same
    rw [List.mem_singleton.mp single] at same
    exact fresh (same ▸ member)
  · rw [grown]
    intro id member
    change id < s.nextTask + 1
    rcases List.mem_append.mp member with old | new
    · exact Nat.lt_succ_of_lt (accounted.known id old)
    · rw [List.mem_singleton.mp new]
      exact Nat.lt_succ_self _
  · intro w id runs
    obtain ⟨less, absent⟩ := accounted.running w id runs
    refine ⟨Nat.lt_succ_of_lt less, ?_⟩
    rw [grown]
    intro member
    rcases List.mem_append.mp member with old | new
    · exact absent old
    · exact Nat.ne_of_lt less (List.mem_singleton.mp new)
  · exact accounted.apart
  · intro id less
    rw [grown]
    have split : id < s.nextTask ∨ id = s.nextTask := Nat.lt_succ_iff_lt_or_eq.mp less
    rcases split with old | rfl
    · rcases accounted.covered id old with inside | held
      · exact .inl (List.mem_append_left _ inside)
      · exact .inr held
    · exact .inl (List.mem_append_right _ List.mem_cons_self)

theorem take_accounted {rest : List Item} {next : WorkerPc} (accounted : Accounted s)
    (free : ∀ id, ¬Runs (s.workers w) id) (listed : s.tasks = item :: rest)
    (holds : ∀ id, Runs next id ↔ id ∈ item.ids) :
    Accounted ({ s with tasks := rest }.setWorker w next) := by
  have split : placed s = s.executed ++ (item.ids ++ rest.flatMap Item.ids) := by
    rw [placed, queuedIds, listed, List.flatMap_cons]
  have left : ∀ id, id ∈ placed ({ s with tasks := rest }.setWorker w next) ↔
      id ∈ s.executed ∨ id ∈ rest.flatMap Item.ids := fun id => List.mem_append
  have whole : ∀ id, id ∈ placed s ↔
      id ∈ placed ({ s with tasks := rest }.setWorker w next) ∨ id ∈ item.ids := by
    intro id
    rw [left, split, List.mem_append, List.mem_append]
    tauto
  have distinct := accounted.distinct
  rw [split] at distinct
  -- The front item goes into the hand of `w` and is nowhere else.
  have taken : ∀ id ∈ item.ids, id ∉ placed ({ s with tasks := rest }.setWorker w next) := by
    intro id member
    rw [left]
    rintro (done | later)
    · exact List.disjoint_of_nodup_append distinct done (List.mem_append_left _ member)
    · exact List.disjoint_of_nodup_append distinct.of_append_right member later
  have others : ∀ v id, Runs (({ s with tasks := rest }.setWorker w next).workers v) id →
      (v = w ∧ id ∈ item.ids) ∨ (v ≠ w ∧ Runs (s.workers v) id) := by
    intro v id runs
    by_cases same : v = w
    · subst same
      rw [set_worker_self] at runs
      exact .inl ⟨rfl, (holds id).mp runs⟩
    · rw [set_worker_other _ _ same] at runs
      exact .inr ⟨same, runs⟩
  constructor
  · have kept : (placed ({ s with tasks := rest }.setWorker w next)).Sublist
        (s.executed ++ (item.ids ++ rest.flatMap Item.ids)) :=
      List.Sublist.append_left (List.sublist_append_right _ _) _
    exact List.Nodup.sublist kept distinct
  · exact fun id member => accounted.known id ((whole id).mpr (.inl member))
  · intro v id runs
    rcases others v id runs with ⟨_, member⟩ | ⟨_, old⟩
    · exact ⟨accounted.known id ((whole id).mpr (.inr member)), taken id member⟩
    · obtain ⟨less, absent⟩ := accounted.running v id old
      exact ⟨less, fun member => absent ((whole id).mpr (.inl member))⟩
  · intro v u id first second
    rcases others v id first with ⟨rfl, member⟩ | ⟨_, old⟩
    · rcases others u id second with ⟨same, _⟩ | ⟨_, held⟩
      · exact same.symm
      · exact ((accounted.running u id held).2 ((whole id).mpr (.inr member))).elim
    · rcases others u id second with ⟨_, member⟩ | ⟨_, held⟩
      · exact ((accounted.running v id old).2 ((whole id).mpr (.inr member))).elim
      · exact accounted.apart v u id old held
  · intro id less
    rcases accounted.covered id less with inside | ⟨v, held⟩
    · rcases (whole id).mp inside with kept | member
      · exact .inl kept
      · refine .inr ⟨w, ?_⟩
        rw [set_worker_self]
        exact (holds id).mpr member
    · have other : v ≠ w := by
        rintro rfl
        exact free id held
      refine .inr ⟨v, ?_⟩
      rwa [set_worker_other _ _ other]

theorem finish_accounted {next : WorkerPc} (accounted : Accounted s)
    (holds : ∀ id, Runs (s.workers w) id ↔ id ∈ item.ids) (free : ∀ id, ¬Runs next id) :
    Accounted ((s.finish item).setWorker w next) := by
  -- The tasks in hand become executed ones, in front of the queued ones.
  have moved : (placed ((s.finish item).setWorker w next)).Perm (item.ids ++ placed s) := by
    change ((s.executed ++ item.ids) ++ queuedIds s).Perm (item.ids ++ (s.executed ++ queuedIds s))
    rw [← List.append_assoc]
    exact List.Perm.append_right _ List.perm_append_comm
  have others : ∀ v id, Runs (((s.finish item).setWorker w next).workers v) id →
      v ≠ w ∧ Runs (s.workers v) id := by
    intro v id runs
    by_cases same : v = w
    · subst same
      rw [set_worker_self] at runs
      exact (free id runs).elim
    · rw [set_worker_other _ _ same] at runs
      exact ⟨same, runs⟩
  constructor
  · apply moved.nodup_iff.mpr
    apply List.nodup_append.mpr
    refine ⟨ids_nodup item, accounted.distinct, ?_⟩
    rintro id member _ inside rfl
    exact (accounted.running w id ((holds id).mpr member)).2 inside
  · intro id member
    rcases List.mem_append.mp (moved.mem_iff.mp member) with own | old
    · exact (accounted.running w id ((holds id).mpr own)).1
    · exact accounted.known id old
  · intro v id runs
    obtain ⟨other, old⟩ := others v id runs
    obtain ⟨less, absent⟩ := accounted.running v id old
    refine ⟨less, fun member => ?_⟩
    rcases List.mem_append.mp (moved.mem_iff.mp member) with own | inside
    · exact other (accounted.apart v w id old ((holds id).mpr own))
    · exact absent inside
  · intro v u id first second
    exact accounted.apart v u id (others v id first).2 (others u id second).2
  · intro id less
    rcases accounted.covered id less with inside | ⟨v, held⟩
    · exact .inl (moved.mem_iff.mpr (List.mem_append_right _ inside))
    · by_cases same : v = w
      · subst same
        exact .inl (moved.mem_iff.mpr (List.mem_append_left _ ((holds id).mp held)))
      · refine .inr ⟨v, ?_⟩
        rwa [set_worker_other _ _ same]

theorem idle_accounted {next : WorkerPc} (accounted : Accounted s)
    (before : ∀ id, ¬Runs (s.workers w) id) (after : ∀ id, ¬Runs next id) :
    Accounted (s.setWorker w next) := by
  have unchanged : ∀ v id, Runs ((s.setWorker w next).workers v) id ↔ Runs (s.workers v) id := by
    intro v id
    by_cases same : v = w
    · subst same
      rw [set_worker_self]
      exact ⟨fun runs => (after id runs).elim, fun runs => (before id runs).elim⟩
    · rw [set_worker_other _ _ same]
  constructor
  · exact accounted.distinct
  · exact accounted.known
  · exact fun v id runs => accounted.running v id ((unchanged v id).mp runs)
  · exact fun v u id first second =>
      accounted.apart v u id ((unchanged v id).mp first) ((unchanged u id).mp second)
  · intro id less
    rcases accounted.covered id less with inside | ⟨v, held⟩
    · exact .inl inside
    · exact .inr ⟨v, (unchanged v id).mpr held⟩

theorem worker_accounted {after : Pool n} (accounted : Accounted s) (step : WorkerStep s w after) :
    Accounted after := by
  cases step with
  | pop pc listed | tryPop pc listed =>
      exact take_accounted accounted (by rw [pc]; exact fun _ => id) listed (fun _ => Iff.rfl)
  | finish pc | finishDrain pc =>
      exact finish_accounted accounted (by rw [pc]; exact fun _ => Iff.rfl) (fun _ => id)
  | goOn pc _ | drain pc _ | leave pc _ =>
      exact idle_accounted accounted (by rw [pc]; exact fun _ => id) (fun _ => id)

theorem closer_accounted {after : Pool n} (accounted : Accounted s) (step : CloserStep s after) :
    Accounted after := by
  cases step with
  | push pc =>
      have same : placed { s with tasks := s.tasks ++ [.empty] } = placed s := by
        simp [placed, queuedIds, Item.ids]
      refine ⟨?_, ?_, ?_, accounted.apart, ?_⟩
      · exact same ▸ accounted.distinct
      · exact fun id member => accounted.known id (same ▸ member)
      · intro v id runs
        obtain ⟨less, absent⟩ := accounted.running v id runs
        exact ⟨less, fun member => absent (same ▸ member)⟩
      · intro id less
        rcases accounted.covered id less with inside | held
        · exact .inl (same.symm ▸ inside)
        · exact .inr held
  | storeStop _ | pushed _ | join _ _ _ | joined _ _ =>
      exact ⟨accounted.distinct, accounted.known, accounted.running, accounted.apart,
        accounted.covered⟩

def joinedCount (n : Nat) : CloserPc → Nat
  | .joining count => count
  | .joined => n
  | .idle | .pushing _ => 0

structure Attended (s : Pool n) : Prop where
  stopped : s.stop = true → s.closer ≠ .idle
  left : ∀ w, s.workers w = .returned → s.closer ≠ .idle
  joined : ∀ w : Fin n, w.val < joinedCount n s.closer → s.workers w = .returned
  tended : (∀ w, s.workers w = .returned) → queuedIds s = []

theorem start_attended (some_ : 0 < n) : Attended (Pool.construct : Pool n) := by
  constructor
  · exact fun stopped => Bool.noConfusion stopped
  · exact fun _ returned => WorkerPc.noConfusion returned
  · exact fun _ before => (Nat.not_lt_zero _ before).elim
  · exact fun all => WorkerPc.noConfusion (all ⟨0, some_⟩)

theorem enqueue_attended (some_ : 0 < n) (attended : Attended s)
    (tending : s.closer = .idle ∨ ∃ w, s.workers w ≠ .returned) : Attended s.enqueue := by
  refine ⟨attended.stopped, attended.left, attended.joined, ?_⟩
  intro all
  -- Who enqueues is outside before the destructor, or a task on a worker that has not returned.
  rcases tending with idle | ⟨w, inside⟩
  · exact (attended.left ⟨0, some_⟩ (all _) idle).elim
  · exact (inside (all w)).elim

theorem set_worker_attended {tasks : List Item} {executed : List TaskId} {next : WorkerPc}
    (attended : Attended s) (inside : s.workers w ≠ .returned)
    (leaves : next = .returned → s.closer ≠ .idle ∧ tasks = []) :
    Attended ({ s with tasks, executed }.setWorker w next) := by
  constructor
  · exact attended.stopped
  · intro v returned
    by_cases same : v = w
    · subst same
      rw [set_worker_self] at returned
      exact (leaves returned).1
    · rw [set_worker_other _ _ same] at returned
      exact attended.left v returned
  · intro v before
    have returned := attended.joined v before
    have other : v ≠ w := by
      rintro rfl
      exact inside returned
    rwa [set_worker_other _ _ other]
  · intro all
    have own := all w
    rw [set_worker_self] at own
    change tasks.flatMap Item.ids = []
    rw [(leaves own).2, List.flatMap_nil]

/-- A worker in the drain loop has seen `stop`. -/
def Draining : WorkerPc → Prop
  | .draining | .runningDrain _ => True
  | _ => False

theorem worker_attended {after : Pool n} (attended : Attended s)
    (drains : ∀ w, Draining (s.workers w) → s.stop = true) (step : WorkerStep s w after) :
    Attended after := by
  have inside {pc : WorkerPc} (at_ : s.workers w = pc) (stays : pc ≠ .returned) :
      s.workers w ≠ .returned := by
    rw [at_]
    exact stays
  cases step with
  | pop pc _ | finish pc | goOn pc _ | drain pc _ | tryPop pc _ | finishDrain pc =>
      exact set_worker_attended attended (inside pc WorkerPc.noConfusion) WorkerPc.noConfusion
  | leave pc none_ =>
      apply set_worker_attended attended (inside pc WorkerPc.noConfusion)
      intro _
      -- A worker leaves with the queue empty; what is enqueued later is seen by who enqueues it.
      have stopped := drains w (by rw [pc]; trivial)
      exact ⟨attended.stopped stopped, none_⟩

theorem closer_attended {after : Pool n} (attended : Attended s) (step : CloserStep s after) :
    Attended after := by
  cases step with
  | storeStop pc =>
      refine ⟨fun _ => CloserPc.noConfusion, fun _ _ => CloserPc.noConfusion, ?_, attended.tended⟩
      exact fun _ before => (Nat.not_lt_zero _ before).elim
  | push pc =>
      refine ⟨fun _ => CloserPc.noConfusion, fun _ _ => CloserPc.noConfusion, ?_, ?_⟩
      · exact fun _ before => (Nat.not_lt_zero _ before).elim
      · intro all
        have none_ := attended.tended all
        rw [queuedIds] at none_
        simp [queuedIds, none_, Item.ids]
  | pushed pc =>
      refine ⟨fun _ => CloserPc.noConfusion, fun _ _ => CloserPc.noConfusion, ?_, attended.tended⟩
      exact fun _ before => (Nat.not_lt_zero _ before).elim
  | join pc inside done =>
      rename_i count
      refine ⟨fun _ => CloserPc.noConfusion, fun _ _ => CloserPc.noConfusion, ?_, attended.tended⟩
      intro w before
      rcases Nat.lt_succ_iff_lt_or_eq.mp before with earlier | same
      · apply attended.joined w
        rw [pc]
        exact earlier
      · have this_ : w = ⟨count, inside⟩ := Fin.ext same
        rw [this_]
        exact done
  | joined pc all =>
      refine ⟨fun _ => CloserPc.noConfusion, fun _ _ => CloserPc.noConfusion, ?_, attended.tended⟩
      intro w before
      apply attended.joined w
      rw [pc]
      exact Nat.lt_of_lt_of_le before all

/-- The flag is never cleared. -/
def DrainStopped (s : Pool n) : Prop := ∀ w, Draining (s.workers w) → s.stop = true

theorem worker_drain_stopped {after : Pool n} (stopped : DrainStopped s)
    (step : WorkerStep s w after) : DrainStopped after := by
  have kept {tasks : List Item} {executed : List TaskId} {next : WorkerPc}
      (drains : Draining next → s.stop = true) :
      DrainStopped ({ s with tasks, executed }.setWorker w next) := by
    intro v draining
    by_cases same : v = w
    · subst same
      rw [set_worker_self] at draining
      exact drains draining
    · rw [set_worker_other _ _ same] at draining
      exact stopped v draining
  cases step with
  | pop _ _ | finish _ | goOn _ _ | leave _ _ => exact kept False.elim
  | drain _ set_ => exact kept (fun _ => set_)
  | tryPop pc _ | finishDrain pc => exact kept (fun _ => stopped w (by rw [pc]; trivial))

/-- When the destructor has joined all workers, every task that was enqueued has
been executed exactly once. -/
theorem all_executed_once (some_ : 0 < n) (reached : Reachable (poolSystem n) s)
    (gone : s.closer = .joined) : ∀ id < s.nextTask, s.executed.count id = 1 := by
  have kept : Accounted s ∧ DrainStopped s ∧ Attended s := by
    apply pool_invariant _ _ _ _ reached
    · exact ⟨start_accounted, fun _ => False.elim, start_attended some_⟩
    · rintro s ⟨accounted, stopped, attended⟩ tending
      exact ⟨enqueue_accounted accounted, stopped, enqueue_attended some_ attended tending⟩
    · rintro s w after ⟨accounted, stopped, attended⟩ _ step
      exact ⟨worker_accounted accounted step, worker_drain_stopped stopped step,
        worker_attended attended stopped step⟩
    · rintro s after ⟨accounted, stopped, attended⟩ step
      refine ⟨closer_accounted accounted step, ?_, closer_attended attended step⟩
      cases step with
      | storeStop _ => exact fun _ _ => rfl
      | push _ | pushed _ | join _ _ _ | joined _ _ => exact stopped
  obtain ⟨accounted, _, attended⟩ := kept
  have returned : ∀ w, s.workers w = .returned := by
    intro w
    apply attended.joined w
    rw [gone]
    exact w.isLt
  have done : placed s = s.executed := by
    rw [placed, attended.tended returned, List.append_nil]
  intro id before
  apply List.count_eq_one_of_mem
  · exact done ▸ accounted.distinct
  · rcases accounted.covered id before with inside | ⟨w, runs⟩
    · exact done ▸ inside
    · rw [returned w] at runs
      exact runs.elim

/-- Worker 0 runs a task; the destructor pushes an empty one, on which worker 1
finds `stop` set and leaves; then the task enqueues another one. -/
def nestedTask : Pool 2 :=
  let first : Fin 2 := ⟨0, Nat.zero_lt_two⟩
  let second : Fin 2 := ⟨1, Nat.one_lt_two⟩
  (afterMoves 2 ([.enqueue, .worker first, .closer, .closer] ++
    List.replicate 4 (.worker second) ++ [.enqueueFrom first] ++
    List.replicate 5 (.worker first) ++ List.replicate 11 .closer)).get (by decide +kernel)

theorem all_executed_once_nested : nestedTask.executed.count 1 = 1 :=
  all_executed_once (by decide) (moves_reachable (by decide +kernel)) (by decide +kernel) 1
    (by decide +kernel)

end Npoller.PoolTasks
