import Mathlib.Logic.Function.Basic
import Npoller.SizeT
import Npoller.StepSystem

/-!
The event loop of `io/event_processor.cpp` after construction: the worker in
`process`, any number of producer threads in `add_task` and
`add_write_instant_task`, and the destructor. A move is one queue operation, one
load or store of `status`, or one read or write of the notification pipe, in
sequentially consistent order. Tasks and callbacks run on the worker and may call
back; what else they do is left open. Tasks are numbered in the order their
`add_task` calls begin; an io that is written to is in `io_map`. Ghost fields
record the tasks whose call has returned, the tasks started and whether the
worker has read, and looked at `status` after, the byte of the destructor.
-/

namespace Npoller.EventLoop

open SizeT StepSystem

abbrev TaskId := Nat
abbrev Fd := Nat

/-- `status_code`; the loop starts when `init` has stored `working`. -/
inductive Status where
  | working
  | readyWaiting
  | waiting
  | readyClose
  | stopWork
  | closed
  deriving DecidableEq, Repr

inductive Signal where
  | close
  | task
  deriving DecidableEq, Repr

inductive Event where
  | pipe
  | io (fd : Fd)
  deriving DecidableEq, Repr

inductive Polled where
  | interrupted
  | failed
  | events (events : List Event)
  deriving DecidableEq, Repr

inductive Next where
  | mergeTasks
  | drainTasks
  | emptyWrites
  | dispatch (events : List Event)
  deriving DecidableEq, Repr

inductive WorkerPc where
  | storeReadyWaiting
  | mergeTasks
  | drainTasks
  | emptyWrites
  | popWrite
  | running (next : Next)
  | checkClose
  | storeStop
  | storeWaiting
  | epollWait
  | storeWorking (polled : Polled)
  | dispatch (events : List Event)
  | loadStatus (byte : Option Signal) (events : List Event)
  | returned
  | thrown
  deriving DecidableEq, Repr

inductive Item where
  | task (task : TaskId)
  | write (fd : Fd)
  deriving DecidableEq, Repr

/-- `loading` and `signalling` have enqueued their item. -/
inductive ProducerPc where
  | idle
  | counting (task : TaskId)
  | pushing (item : Item)
  | loading (item : Item)
  | signalling (item : Item)
  deriving DecidableEq, Repr

inductive CloserPc where
  | idle
  | checking
  | storing
  | writing
  | joining
  | done
  | failed
  deriving DecidableEq, Repr

structure Returned where
  task : TaskId
  byWorker : Bool
  deriving DecidableEq, Repr

structure Loop (τ : Type*) where
  status : Status
  pipe : List Signal
  taskList : List TaskId
  localTaskList : List (TaskId × Int)
  readyToWrite : List Fd
  taskIndex : Nat
  closeFlag : Bool
  index : Int
  worker : WorkerPc
  producers : τ → ProducerPc
  closer : CloserPc
  nextTask : TaskId
  returned : List Returned
  started : List TaskId
  closeSeen : Bool

def maxEvents : Nat := 1024

def Next.pc : Next → WorkerPc
  | .mergeTasks => .mergeTasks
  | .drainTasks => .drainTasks
  | .emptyWrites => .emptyWrites
  | .dispatch events => .dispatch events

variable {τ : Type*}

section Worker

/-- `task(); index++;` -/
def Loop.startTask (s : Loop τ) (task : TaskId) (next : Next) : Loop τ :=
  { s with index := s.index + 1, started := s.started ++ [task], worker := .running next }

def mergeTask (s : Loop τ) : Loop τ :=
  match s.localTaskList, s.taskList with
  | [], _ => { s with worker := .drainTasks }
  | (task, second) :: locals, tasks =>
      if second = s.index + 1 then
        { s with localTaskList := locals }.startTask task .mergeTasks
      else
        match tasks with
        | task :: tasks => { s with taskList := tasks }.startTask task .mergeTasks
        | [] => { s with worker := .thrown }

def drainTask (s : Loop τ) : Loop τ :=
  match s.taskList with
  | task :: tasks => { s with taskList := tasks }.startTask task .drainTasks
  | [] => { s with worker := .emptyWrites }

/-- `ready_to_write.try_pop` in `process_instant_write`. -/
def popWrite (s : Loop τ) : Loop τ :=
  match s.readyToWrite with
  | _ :: rest => { s with readyToWrite := rest, worker := .running .emptyWrites }
  | [] => { s with worker := .emptyWrites }

/-- One event of the batch: the pipe is read, an io's events are processed. -/
def dispatchEvent (events : List Event) (s : Loop τ) : Loop τ :=
  match events with
  | [] => { s with worker := .storeReadyWaiting }
  | .pipe :: rest =>
      match s.pipe with
      | byte :: bytes => { s with pipe := bytes, worker := .loadStatus (some byte) rest }
      | [] => { s with worker := .loadStatus none rest }
  | .io _ :: rest => { s with worker := .running (.dispatch rest) }

/-- Level-triggered: the pipe is reported when it holds a byte, once in a batch. -/
def Reportable (s : Loop τ) : Polled → Prop
  | .interrupted | .failed => True
  | .events events => events ≠ [] ∧ events.length ≤ maxEvents ∧ events.count .pipe ≤ 1 ∧
      (Event.pipe ∈ events → s.pipe ≠ [])

instance (s : Loop τ) (polled : Polled) : Decidable (Reportable s polled) := by
  cases polled <;> unfold Reportable <;> infer_instance

def afterPoll : Polled → WorkerPc
  | .interrupted => .storeReadyWaiting
  | .failed => .returned
  | .events events => .dispatch events

def advance (s : Loop τ) : Option (Loop τ) :=
  match s.worker with
  | .storeReadyWaiting => some { s with status := .readyWaiting, worker := .mergeTasks }
  | .mergeTasks => some (mergeTask s)
  | .drainTasks => some (drainTask s)
  | .emptyWrites =>
      some { s with worker := if s.readyToWrite = [] then .checkClose else .popWrite }
  | .popWrite => some (popWrite s)
  | .running next => some { s with worker := next.pc }
  | .checkClose => some { s with worker := if s.closeFlag then .storeStop else .storeWaiting }
  | .storeStop => some { s with status := .stopWork, worker := .returned }
  | .storeWaiting => some { s with status := .waiting, worker := .epollWait }
  | .storeWorking polled => some { s with status := .working, worker := afterPoll polled }
  | .dispatch events => some (dispatchEvent events s)
  | .loadStatus byte events =>
      some { s with
        closeFlag := s.closeFlag || s.status = .readyClose
        closeSeen := s.closeSeen || byte = some .close
        worker := .dispatch events }
  | .epollWait | .returned | .thrown => none

inductive WorkerMove where
  | advance
  | poll (polled : Polled)
  | addTask
  | addWrite (fd : Fd)

/-- `add_task` on the worker only counts; `add_write_instant_task` on the worker
enqueues and does not signal. -/
def workerMove (s : Loop τ) : WorkerMove → Option (Loop τ)
  | .advance => advance s
  | .poll polled =>
      if s.worker = .epollWait ∧ Reportable s polled then
        some { s with worker := .storeWorking polled }
      else none
  | .addTask =>
      match s.worker with
      | .running _ => some { s with
          taskIndex := wadd s.taskIndex 1
          nextTask := s.nextTask + 1
          returned := ⟨s.nextTask, true⟩ :: s.returned }
      | _ => none
  | .addWrite fd =>
      match s.worker with
      | .running _ => some { s with readyToWrite := s.readyToWrite ++ [fd] }
      | _ => none

end Worker

section Threads
variable [DecidableEq τ]

/-- A `write` of one byte to the pipe, which fails when the pipe is full. -/
def writePipe (capacity : Nat) (byte : Signal) (pipe : List Signal) : List Signal :=
  if pipe.length < capacity then pipe ++ [byte] else pipe

def Loop.setProducer (s : Loop τ) (p : τ) (pc : ProducerPc) : Loop τ :=
  { s with producers := Function.update s.producers p pc }

def Loop.finishCall (s : Loop τ) (p : τ) : Item → Loop τ
  | .task task => { s.setProducer p .idle with returned := ⟨task, false⟩ :: s.returned }
  | .write _ => s.setProducer p .idle

inductive ProducerMove where
  | callTask
  | callWrite (fd : Fd)
  | advance

/-- `add_task` and `add_write_instant_task` with `notify_event` on another thread. -/
def producerMove (capacity : Nat) (s : Loop τ) (p : τ) : ProducerMove → Option (Loop τ)
  | .callTask =>
      match s.producers p with
      | .idle => some { s.setProducer p (.counting s.nextTask) with nextTask := s.nextTask + 1 }
      | _ => none
  | .callWrite fd =>
      match s.producers p with
      | .idle => some (s.setProducer p (.pushing (.write fd)))
      | _ => none
  | .advance =>
      match s.producers p with
      | .idle => none
      | .counting task =>
          some { s.setProducer p (.pushing (.task task)) with taskIndex := wadd s.taskIndex 1 }
      | .pushing (.task task) =>
          some { s.setProducer p (.loading (.task task)) with taskList := s.taskList ++ [task] }
      | .pushing (.write fd) =>
          some { s.setProducer p (.loading (.write fd)) with
            readyToWrite := s.readyToWrite ++ [fd] }
      | .loading item =>
          some (if s.status = .working then s.finishCall p item
            else s.setProducer p (.signalling item))
      | .signalling item =>
          some ({ s with pipe := writePipe capacity .task s.pipe }.finishCall p item)

/-- `~event_processor`. The loop on `!status.load() == stop_work` never repeats. -/
def closerMove (capacity : Nat) (s : Loop τ) : Option (Loop τ) :=
  match s.closer with
  | .idle => some { s with closer := .checking }
  | .checking =>
      some { s with closer :=
        if s.status = .stopWork ∨ s.status = .closed then .done else .storing }
  | .storing => some { s with status := .readyClose, closer := .writing }
  | .writing =>
      some { s with
        pipe := writePipe capacity .close s.pipe
        closer := if s.pipe.length < capacity then .joining else .failed }
  | .joining => if s.worker = .returned then some { s with closer := .done } else none
  | .done | .failed => none

inductive Move (τ : Type*) where
  | worker (move : WorkerMove)
  | producer (p : τ) (move : ProducerMove)
  | closer

def Move.run (capacity : Nat) (s : Loop τ) : Move τ → Option (Loop τ)
  | .worker move => workerMove s move
  | .producer p move => producerMove capacity s p move
  | .closer => closerMove capacity s

def Loop.start : Loop τ :=
  { status := .working, pipe := [], taskList := [], localTaskList := [], readyToWrite := []
    taskIndex := 0, closeFlag := false, index := 0, worker := .storeReadyWaiting
    producers := fun _ => .idle, closer := .idle
    nextTask := 0, returned := [], started := [], closeSeen := false }

def loopSystem (τ : Type*) [DecidableEq τ] (capacity : Nat) : System (Loop τ) (Move τ) where
  init s := s = .start
  step before move after := move.run capacity before = some after

end Threads

section Steps
variable {s after : Loop τ}

inductive WorkerStep (s : Loop τ) : Loop τ → Prop where
  | storeReadyWaiting (pc : s.worker = .storeReadyWaiting) :
      WorkerStep s { s with status := .readyWaiting, worker := .mergeTasks }
  | startLocal {task : TaskId} {second : Int} {locals : List (TaskId × Int)}
      (pc : s.worker = .mergeTasks) (listed : s.localTaskList = (task, second) :: locals) :
      WorkerStep s ({ s with localTaskList := locals }.startTask task .mergeTasks)
  | startMerged {task : TaskId} {tasks : List TaskId} (pc : s.worker = .mergeTasks)
      (listed : s.taskList = task :: tasks) :
      WorkerStep s ({ s with taskList := tasks }.startTask task .mergeTasks)
  | noLocal (pc : s.worker = .mergeTasks) (empty : s.localTaskList = []) :
      WorkerStep s { s with worker := .drainTasks }
  | throws (pc : s.worker = .mergeTasks) (stuck : s.localTaskList ≠ []) :
      WorkerStep s { s with worker := .thrown }
  | startTask {task : TaskId} {tasks : List TaskId} (pc : s.worker = .drainTasks)
      (listed : s.taskList = task :: tasks) :
      WorkerStep s ({ s with taskList := tasks }.startTask task .drainTasks)
  | noTask (pc : s.worker = .drainTasks) (empty : s.taskList = []) :
      WorkerStep s { s with worker := .emptyWrites }
  | noWrite (pc : s.worker = .emptyWrites) (empty : s.readyToWrite = []) :
      WorkerStep s { s with worker := .checkClose }
  | someWrite (pc : s.worker = .emptyWrites) : WorkerStep s { s with worker := .popWrite }
  | takeWrite {fd : Fd} {rest : List Fd} (pc : s.worker = .popWrite)
      (listed : s.readyToWrite = fd :: rest) :
      WorkerStep s { s with readyToWrite := rest, worker := .running .emptyWrites }
  | missWrite (pc : s.worker = .popWrite) : WorkerStep s { s with worker := .emptyWrites }
  | resume {next : Next} (pc : s.worker = .running next) :
      WorkerStep s { s with worker := next.pc }
  | closes (pc : s.worker = .checkClose) (flag : s.closeFlag = true) :
      WorkerStep s { s with worker := .storeStop }
  | stays (pc : s.worker = .checkClose) (flag : s.closeFlag = false) :
      WorkerStep s { s with worker := .storeWaiting }
  | storeStop (pc : s.worker = .storeStop) :
      WorkerStep s { s with status := .stopWork, worker := .returned }
  | storeWaiting (pc : s.worker = .storeWaiting) :
      WorkerStep s { s with status := .waiting, worker := .epollWait }
  | poll {polled : Polled} (pc : s.worker = .epollWait) (ready : Reportable s polled) :
      WorkerStep s { s with worker := .storeWorking polled }
  | storeWorking {polled : Polled} (pc : s.worker = .storeWorking polled) :
      WorkerStep s { s with status := .working, worker := afterPoll polled }
  | batchDone (pc : s.worker = .dispatch []) :
      WorkerStep s { s with worker := .storeReadyWaiting }
  | readPipe {byte : Signal} {bytes : List Signal} {rest : List Event}
      (pc : s.worker = .dispatch (.pipe :: rest)) (listed : s.pipe = byte :: bytes) :
      WorkerStep s { s with pipe := bytes, worker := .loadStatus (some byte) rest }
  | readNothing {rest : List Event} (pc : s.worker = .dispatch (.pipe :: rest))
      (empty : s.pipe = []) : WorkerStep s { s with worker := .loadStatus none rest }
  | processIo {fd : Fd} {rest : List Event} (pc : s.worker = .dispatch (.io fd :: rest)) :
      WorkerStep s { s with worker := .running (.dispatch rest) }
  | loadStatus {byte : Option Signal} {events : List Event}
      (pc : s.worker = .loadStatus byte events) :
      WorkerStep s { s with
        closeFlag := s.closeFlag || s.status = .readyClose
        closeSeen := s.closeSeen || byte = some .close
        worker := .dispatch events }
  | callTask {next : Next} (pc : s.worker = .running next) :
      WorkerStep s { s with
        taskIndex := wadd s.taskIndex 1
        nextTask := s.nextTask + 1
        returned := ⟨s.nextTask, true⟩ :: s.returned }
  | callWrite {next : Next} (fd : Fd) (pc : s.worker = .running next) :
      WorkerStep s { s with readyToWrite := s.readyToWrite ++ [fd] }

theorem merge_task_steps (pc : s.worker = .mergeTasks) : WorkerStep s (mergeTask s) := by
  unfold mergeTask
  split
  · rename_i locals
    exact .noLocal pc locals
  · rename_i locals
    split
    · exact .startLocal pc locals
    · split
      · rename_i tasks
        exact .startMerged pc tasks
      · exact .throws pc (by simp [locals])

theorem drain_task_steps (pc : s.worker = .drainTasks) : WorkerStep s (drainTask s) := by
  unfold drainTask
  split
  · rename_i tasks
    exact .startTask pc tasks
  · rename_i tasks
    exact .noTask pc tasks

theorem pop_write_steps (pc : s.worker = .popWrite) : WorkerStep s (popWrite s) := by
  unfold popWrite
  split
  · rename_i listed
    exact .takeWrite pc listed
  · exact .missWrite pc

theorem dispatch_event_steps {events : List Event} (pc : s.worker = .dispatch events) :
    WorkerStep s (dispatchEvent events s) := by
  cases events with
  | nil => exact .batchDone pc
  | cons event rest =>
      cases event with
      | pipe =>
          unfold dispatchEvent
          dsimp only
          split
          · rename_i bytes
            exact .readPipe pc bytes
          · rename_i bytes
            exact .readNothing pc bytes
      | io fd => exact .processIo pc

theorem advance_steps (moves : advance s = some after) : WorkerStep s after := by
  unfold advance at moves
  cases pc : s.worker with
  | storeReadyWaiting =>
      rw [pc] at moves
      cases moves
      exact .storeReadyWaiting pc
  | mergeTasks =>
      rw [pc] at moves
      cases moves
      exact merge_task_steps pc
  | drainTasks =>
      rw [pc] at moves
      cases moves
      exact drain_task_steps pc
  | emptyWrites =>
      rw [pc] at moves
      cases moves
      by_cases empty : s.readyToWrite = []
      · rw [if_pos empty]
        exact .noWrite pc empty
      · rw [if_neg empty]
        exact .someWrite pc
  | popWrite =>
      rw [pc] at moves
      cases moves
      exact pop_write_steps pc
  | running next =>
      rw [pc] at moves
      cases moves
      exact .resume pc
  | checkClose =>
      rw [pc] at moves
      cases moves
      by_cases flag : s.closeFlag = true
      · rw [if_pos flag]
        exact .closes pc flag
      · rw [if_neg flag]
        exact .stays pc (Bool.eq_false_iff.mpr flag)
  | storeStop =>
      rw [pc] at moves
      cases moves
      exact .storeStop pc
  | storeWaiting =>
      rw [pc] at moves
      cases moves
      exact .storeWaiting pc
  | storeWorking polled =>
      rw [pc] at moves
      cases moves
      exact .storeWorking pc
  | dispatch events =>
      rw [pc] at moves
      cases moves
      exact dispatch_event_steps pc
  | loadStatus byte events =>
      rw [pc] at moves
      cases moves
      exact .loadStatus pc
  | epollWait | returned | thrown =>
      rw [pc] at moves
      cases moves

theorem worker_steps {move : WorkerMove} (moves : workerMove s move = some after) :
    WorkerStep s after := by
  cases move with
  | advance => exact advance_steps moves
  | poll polled =>
      by_cases ready : s.worker = .epollWait ∧ Reportable s polled
      · rw [workerMove, if_pos ready] at moves
        cases moves
        exact .poll ready.1 ready.2
      · rw [workerMove, if_neg ready] at moves
        cases moves
  | addTask =>
      unfold workerMove at moves
      dsimp only at moves
      split at moves
      · rename_i pc
        cases moves
        exact .callTask pc
      · cases moves
  | addWrite fd =>
      unfold workerMove at moves
      dsimp only at moves
      split at moves
      · rename_i pc
        cases moves
        exact .callWrite fd pc
      · cases moves

section Threads
variable [DecidableEq τ] {capacity : Nat}

inductive ProducerStep (capacity : Nat) (s : Loop τ) (p : τ) : Loop τ → Prop where
  | callTask (pc : s.producers p = .idle) :
      ProducerStep capacity s p
        { s.setProducer p (.counting s.nextTask) with nextTask := s.nextTask + 1 }
  | callWrite (fd : Fd) (pc : s.producers p = .idle) :
      ProducerStep capacity s p (s.setProducer p (.pushing (.write fd)))
  | count {task : TaskId} (pc : s.producers p = .counting task) :
      ProducerStep capacity s p
        { s.setProducer p (.pushing (.task task)) with taskIndex := wadd s.taskIndex 1 }
  | pushTask {task : TaskId} (pc : s.producers p = .pushing (.task task)) :
      ProducerStep capacity s p
        { s.setProducer p (.loading (.task task)) with taskList := s.taskList ++ [task] }
  | pushWrite {fd : Fd} (pc : s.producers p = .pushing (.write fd)) :
      ProducerStep capacity s p
        { s.setProducer p (.loading (.write fd)) with readyToWrite := s.readyToWrite ++ [fd] }
  | skip {item : Item} (pc : s.producers p = .loading item) (works : s.status = .working) :
      ProducerStep capacity s p (s.finishCall p item)
  | alert {item : Item} (pc : s.producers p = .loading item) (rests : s.status ≠ .working) :
      ProducerStep capacity s p (s.setProducer p (.signalling item))
  | signal {item : Item} (pc : s.producers p = .signalling item) :
      ProducerStep capacity s p
        ({ s with pipe := writePipe capacity .task s.pipe }.finishCall p item)

theorem producer_advance_steps {p : τ}
    (moves : producerMove capacity s p .advance = some after) :
    ProducerStep capacity s p after := by
  unfold producerMove at moves
  dsimp only at moves
  split at moves
  · cases moves
  · rename_i pc
    cases moves
    exact .count pc
  · rename_i pc
    cases moves
    exact .pushTask pc
  · rename_i pc
    cases moves
    exact .pushWrite pc
  · rename_i pc
    cases moves
    by_cases works : s.status = .working
    · rw [if_pos works]
      exact .skip pc works
    · rw [if_neg works]
      exact .alert pc works
  · rename_i pc
    cases moves
    exact .signal pc

theorem producer_steps {p : τ} {move : ProducerMove}
    (moves : producerMove capacity s p move = some after) :
    ProducerStep capacity s p after := by
  cases move with
  | callTask =>
      unfold producerMove at moves
      dsimp only at moves
      split at moves
      · rename_i pc
        cases moves
        exact .callTask pc
      · cases moves
  | callWrite fd =>
      unfold producerMove at moves
      dsimp only at moves
      split at moves
      · rename_i pc
        cases moves
        exact .callWrite fd pc
      · cases moves
  | advance => exact producer_advance_steps moves

inductive CloserStep (capacity : Nat) (s : Loop τ) : Loop τ → Prop where
  | call (pc : s.closer = .idle) : CloserStep capacity s { s with closer := .checking }
  | stopped (pc : s.closer = .checking) : CloserStep capacity s { s with closer := .done }
  | proceed (pc : s.closer = .checking) : CloserStep capacity s { s with closer := .storing }
  | store (pc : s.closer = .storing) :
      CloserStep capacity s { s with status := .readyClose, closer := .writing }
  | write (pc : s.closer = .writing) (room : s.pipe.length < capacity) :
      CloserStep capacity s { s with pipe := s.pipe ++ [.close], closer := .joining }
  | full (pc : s.closer = .writing) : CloserStep capacity s { s with closer := .failed }
  | join (pc : s.closer = .joining) : CloserStep capacity s { s with closer := .done }

omit [DecidableEq τ] in
theorem closer_steps (moves : closerMove capacity s = some after) :
    CloserStep capacity s after := by
  unfold closerMove at moves
  split at moves
  · rename_i pc
    cases moves
    exact .call pc
  · rename_i pc
    cases moves
    by_cases stopped : s.status = .stopWork ∨ s.status = .closed
    · rw [if_pos stopped]
      exact .stopped pc
    · rw [if_neg stopped]
      exact .proceed pc
  · rename_i pc
    cases moves
    exact .store pc
  · rename_i pc
    cases moves
    by_cases room : s.pipe.length < capacity
    · rw [if_pos room, writePipe, if_pos room]
      exact .write pc room
    · rw [if_neg room, writePipe, if_neg room]
      exact .full pc
  · rename_i pc
    split at moves
    · cases moves
      exact .join pc
    · cases moves
  · cases moves
  · cases moves

theorem loop_invariant {inv : Loop τ → Prop} (starts : inv .start)
    (worker : ∀ before after, inv before → WorkerStep before after → inv after)
    (producer : ∀ before p after, inv before → ProducerStep capacity before p after → inv after)
    (closer : ∀ before after, inv before → CloserStep capacity before after → inv after)
    {state : Loop τ} (reached : Reachable (loopSystem τ capacity) state) : inv state := by
  apply invariant _ _ reached
  · rintro _ rfl
    exact starts
  · intro before move after holds _ moves
    cases move with
    | worker move => exact worker before after holds (worker_steps moves)
    | producer p move => exact producer before p after holds (producer_steps moves)
    | closer => exact closer before after holds (closer_steps moves)

def afterMoves (capacity : Nat) (moves : List (Move τ)) : Option (Loop τ) :=
  moves.foldlM (fun s move => move.run capacity s) .start

theorem moves_reachable {moves : List (Move τ)} (ran : (afterMoves capacity moves).isSome) :
    Reachable (loopSystem τ capacity) ((afterMoves capacity moves).get ran) :=
  fold_reachable (fun _ _ _ moved => ⟨trivial, moved⟩) (.start rfl) (Option.some_get ran).symm

end Threads

end Steps

end Npoller.EventLoop
