import Mathlib.Logic.Function.Basic
import Npoller.StepSystem

/-!
`coroutine_pool/threadpool.h`: the workers of the constructor's loop, the tasks
they run, and the destructor. `m_tasks` is a first-in first-out list whose `pop`
waits while it is empty and whose `try_pop` does not. A task may enqueue others
while it runs; a caller outside enqueues before the destructor starts. The pool
has so few workers that `int i` counts to `4 * workers.size()`.
-/

namespace Npoller.ThreadPool

open StepSystem

abbrev TaskId := Nat

/-- `empty` is the lambda the destructor pushes. -/
inductive Item where
  | task (task : TaskId)
  | empty
  deriving DecidableEq, Repr

/-- `popping` is at the blocking `pop`, `running` in `task()` before or inside the
drain loop. -/
inductive WorkerPc where
  | popping
  | running (item : Item)
  | loadStop
  | draining
  | runningDrain (item : Item)
  | returned
  deriving DecidableEq, Repr

/-- `pushing left` has that many empty tasks to push, `joining count` has joined
that many workers. -/
inductive CloserPc where
  | idle
  | pushing (left : Nat)
  | joining (count : Nat)
  | joined
  deriving DecidableEq, Repr

/-- `nextTask` and `executed` record the tasks enqueued and those that have run. -/
structure Pool (n : Nat) where
  tasks : List Item
  stop : Bool
  workers : Fin n → WorkerPc
  closer : CloserPc
  nextTask : TaskId
  executed : List TaskId

def Item.ids : Item → List TaskId
  | .task id => [id]
  | .empty => []

variable {n : Nat}

def Pool.construct : Pool n :=
  { tasks := [], stop := false, workers := fun _ => .popping, closer := .idle
    nextTask := 0, executed := [] }

def Pool.setWorker (s : Pool n) (w : Fin n) (pc : WorkerPc) : Pool n :=
  { s with workers := Function.update s.workers w pc }

def Pool.enqueue (s : Pool n) : Pool n :=
  { s with tasks := s.tasks ++ [.task s.nextTask], nextTask := s.nextTask + 1 }

/-- `task()` has returned. -/
def Pool.finish (s : Pool n) (item : Item) : Pool n :=
  { s with executed := s.executed ++ item.ids }

def advance (s : Pool n) (w : Fin n) : Option (Pool n) :=
  match s.workers w with
  | .popping =>
      match s.tasks with
      | item :: rest => some ({ s with tasks := rest }.setWorker w (.running item))
      | [] => none
  | .running item => some ((s.finish item).setWorker w .loadStop)
  -- The flag is loaded after every task; a worker at `pop` does not see it.
  | .loadStop => some (s.setWorker w (if s.stop then .draining else .popping))
  | .draining =>
      match s.tasks with
      | item :: rest => some ({ s with tasks := rest }.setWorker w (.runningDrain item))
      | [] => some (s.setWorker w .returned)
  | .runningDrain item => some ((s.finish item).setWorker w .draining)
  | .returned => none

def enqueueInside (s : Pool n) (w : Fin n) : Option (Pool n) :=
  match s.workers w with
  | .running (.task _) | .runningDrain (.task _) => some s.enqueue
  | _ => none

/-- `~thread_pool` -/
def closerMove (s : Pool n) : Option (Pool n) :=
  match s.closer with
  -- Four empty tasks for each worker, whoever takes them.
  | .idle => some { s with stop := true, closer := .pushing (4 * n) }
  | .pushing (left + 1) => some { s with tasks := s.tasks ++ [.empty], closer := .pushing left }
  | .pushing 0 => some { s with closer := .joining 0 }
  | .joining count =>
      if inside : count < n then
        if s.workers ⟨count, inside⟩ = .returned then some { s with closer := .joining (count + 1) }
        else none
      else some { s with closer := .joined }
  | .joined => none

inductive Move (n : Nat) where
  | enqueue
  | worker (w : Fin n)
  | enqueueFrom (w : Fin n)
  | closer

def Move.run (s : Pool n) : Move n → Option (Pool n)
  | .enqueue => if s.closer = .idle then some s.enqueue else none
  | .worker w => advance s w
  | .enqueueFrom w => enqueueInside s w
  | .closer => closerMove s

def poolSystem (n : Nat) : System (Pool n) (Move n) where
  init s := s = .construct
  step before move after := move.run before = some after

@[simp] theorem set_worker_self (s : Pool n) (w : Fin n) (pc : WorkerPc) :
    (s.setWorker w pc).workers w = pc := Function.update_self ..

theorem set_worker_other (s : Pool n) {v w : Fin n} (pc : WorkerPc) (other : v ≠ w) :
    (s.setWorker w pc).workers v = s.workers v := Function.update_of_ne other ..

section Steps
variable {s after : Pool n}

inductive WorkerStep (s : Pool n) (w : Fin n) : Pool n → Prop where
  | pop {item : Item} {rest : List Item} (pc : s.workers w = .popping)
      (listed : s.tasks = item :: rest) :
      WorkerStep s w ({ s with tasks := rest }.setWorker w (.running item))
  | finish {item : Item} (pc : s.workers w = .running item) :
      WorkerStep s w ((s.finish item).setWorker w .loadStop)
  | goOn (pc : s.workers w = .loadStop) (open_ : s.stop = false) :
      WorkerStep s w (s.setWorker w .popping)
  | drain (pc : s.workers w = .loadStop) (stopped : s.stop = true) :
      WorkerStep s w (s.setWorker w .draining)
  | tryPop {item : Item} {rest : List Item} (pc : s.workers w = .draining)
      (listed : s.tasks = item :: rest) :
      WorkerStep s w ({ s with tasks := rest }.setWorker w (.runningDrain item))
  | finishDrain {item : Item} (pc : s.workers w = .runningDrain item) :
      WorkerStep s w ((s.finish item).setWorker w .draining)
  | leave (pc : s.workers w = .draining) (none_ : s.tasks = []) :
      WorkerStep s w (s.setWorker w .returned)

theorem advance_steps {w : Fin n} (moves : advance s w = some after) : WorkerStep s w after := by
  unfold advance at moves
  split at moves
  · rename_i pc
    split at moves
    · rename_i listed
      cases moves
      exact .pop pc listed
    · cases moves
  · rename_i pc
    cases moves
    exact .finish pc
  · rename_i pc
    cases moves
    split
    · rename_i stopped
      exact .drain pc stopped
    · rename_i open_
      exact .goOn pc (Bool.eq_false_iff.mpr open_)
  · rename_i pc
    split at moves
    · rename_i listed
      cases moves
      exact .tryPop pc listed
    · rename_i none_
      cases moves
      exact .leave pc none_
  · rename_i pc
    cases moves
    exact .finishDrain pc
  · cases moves

theorem steps_advance {w : Fin n} (step : WorkerStep s w after) : advance s w = some after := by
  cases step with
  | pop pc listed => simp only [advance, pc, listed]
  | finish pc => simp only [advance, pc]
  | goOn pc open_ => simp only [advance, pc, open_, Bool.false_eq_true, if_false]
  | drain pc stopped => simp only [advance, pc, stopped, if_true]
  | tryPop pc listed => simp only [advance, pc, listed]
  | finishDrain pc => simp only [advance, pc]
  | leave pc none_ => simp only [advance, pc, none_]

theorem enqueue_inside_steps {w : Fin n} (moves : enqueueInside s w = some after) :
    s.workers w ≠ .returned ∧ after = s.enqueue := by
  unfold enqueueInside at moves
  split at moves
  · rename_i pc
    cases moves
    exact ⟨by rw [pc]; exact WorkerPc.noConfusion, rfl⟩
  · rename_i pc
    cases moves
    exact ⟨by rw [pc]; exact WorkerPc.noConfusion, rfl⟩
  · cases moves

inductive CloserStep (s : Pool n) : Pool n → Prop where
  | storeStop (pc : s.closer = .idle) :
      CloserStep s { s with stop := true, closer := .pushing (4 * n) }
  | push {left : Nat} (pc : s.closer = .pushing (left + 1)) :
      CloserStep s { s with tasks := s.tasks ++ [.empty], closer := .pushing left }
  | pushed (pc : s.closer = .pushing 0) : CloserStep s { s with closer := .joining 0 }
  | join {count : Nat} (pc : s.closer = .joining count) (inside : count < n)
      (done : s.workers ⟨count, inside⟩ = .returned) :
      CloserStep s { s with closer := .joining (count + 1) }
  | joined {count : Nat} (pc : s.closer = .joining count) (all : n ≤ count) :
      CloserStep s { s with closer := .joined }

theorem closer_steps (moves : closerMove s = some after) : CloserStep s after := by
  unfold closerMove at moves
  split at moves
  · rename_i pc
    cases moves
    exact .storeStop pc
  · rename_i pc
    cases moves
    exact .push pc
  · rename_i pc
    cases moves
    exact .pushed pc
  · rename_i pc
    split at moves
    · rename_i inside
      split at moves
      · rename_i done
        cases moves
        exact .join pc inside done
      · cases moves
    · rename_i outside
      cases moves
      exact .joined pc (Nat.le_of_not_lt outside)
  · cases moves

end Steps

section Runs

variable {allowed : Pool n → Move n → Prop} {s : Pool n}

theorem pool_invariant {inv : Pool n → Prop} (starts : inv .construct)
    (enqueues : ∀ s, inv s → s.closer = .idle ∨ (∃ w, s.workers w ≠ .returned) → inv s.enqueue)
    (works : ∀ s w after, inv s → allowed s (.worker w) → WorkerStep s w after → inv after)
    (closes : ∀ s after, inv s → CloserStep s after → inv after)
    (reached : ReachableBy (poolSystem n) allowed s) : inv s := by
  apply invariant _ _ reached
  · rintro state rfl
    exact starts
  · intro before move after holds meets moves
    cases move with
    | enqueue =>
        simp only [poolSystem, Move.run] at moves
        split at moves
        · rename_i idle
          cases moves
          exact enqueues before holds (.inl idle)
        · cases moves
    | worker w => exact works before w after holds meets (advance_steps moves)
    | enqueueFrom w =>
        have moved : enqueueInside before w = some after := moves
        obtain ⟨inside, rfl⟩ := enqueue_inside_steps moved
        exact enqueues before holds (.inr ⟨w, inside⟩)
    | closer => exact closes before after holds (closer_steps moves)

def afterMoves (n : Nat) (moves : List (Move n)) : Option (Pool n) :=
  moves.foldlM Move.run .construct

theorem moves_reachable {moves : List (Move n)} (ran : (afterMoves n moves).isSome) :
    Reachable (poolSystem n) ((afterMoves n moves).get ran) :=
  fold_reachable (fun _ _ _ moved => ⟨trivial, moved⟩) (.start rfl) (Option.some_get ran).symm

end Runs

end Npoller.ThreadPool
