import Mathlib.Data.List.Basic
import Npoller.EventLoop

/-!
The shutdown request. The destructor stores `ready_close` and then writes one
byte. The pipe is first in, first out, and the worker reads at most one byte in a
batch, so it reads that byte only in a batch reported after the byte was written;
before it dispatches that batch it stores `working` over `ready_close`. Hence the
look at `status` after the destructor's byte never finds the request.
-/

namespace Npoller.Shutdown

open EventLoop StepSystem

variable {τ : Type*}

def Written : CloserPc → Prop
  | .joining | .done => True
  | .idle | .checking | .storing | .writing | .failed => False

/-- A batch being dispatched: at most one read of the pipe is ahead, and it will
find a byte. If that is the destructor's, the request has been overwritten. -/
structure Dispatching (s : Loop τ) (events : List Event) : Prop where
  single : events.count .pipe ≤ 1
  open_ : .pipe ∈ events → s.closeFlag = false
  unread : .pipe ∈ events → s.pipe ≠ []
  late : .pipe ∈ events → s.pipe.head? = some .close → s.status ≠ .readyClose

/-- What holds at each control point of the worker. -/
def AtPc (s : Loop τ) : WorkerPc → Prop
  | .storeStop => s.closeFlag = true
  | .storeWaiting | .epollWait => s.closeFlag = false
  | .storeWorking polled => s.closeFlag = false ∧ Reportable s polled
  | .dispatch events | .running (.dispatch events) => Dispatching s events
  | .loadStatus byte events => s.closeFlag = false ∧ Event.pipe ∉ events ∧
      (byte = some .close → Written s.closer ∧ s.status ≠ .readyClose)
  | _ => True

structure Overwritten (s : Loop τ) : Prop where
  here : AtPc s s.worker
  written : .close ∈ s.pipe → Written s.closer
  seen : s.closeSeen = true → Written s.closer ∧ s.status ≠ .readyClose ∧ s.closeFlag = false

variable {s after : Loop τ}

theorem head_written (inv : Overwritten s) (head : s.pipe.head? = some .close) :
    Written s.closer := inv.written (List.mem_of_mem_head? head)

structure Beside (s after : Loop τ) : Prop where
  worker : after.worker = s.worker
  flag : after.closeFlag = s.closeFlag
  seen : after.closeSeen = s.closeSeen
  bytes : s.pipe ≠ [] → after.pipe ≠ [] ∧ after.pipe.head? = s.pipe.head?
  closer : Written s.closer → Written after.closer
  status : Written s.closer → s.status ≠ .readyClose → after.status ≠ .readyClose

theorem dispatching_beside {events : List Event} (inv : Overwritten s) (beside : Beside s after)
    (ready : Dispatching s events) : Dispatching after events := by
  constructor
  · exact ready.single
  · intro member
    rw [beside.flag]
    exact ready.open_ member
  · exact fun member => (beside.bytes (ready.unread member)).1
  · intro member head
    rw [(beside.bytes (ready.unread member)).2] at head
    exact beside.status (head_written inv head) (ready.late member head)

theorem at_pc_beside (inv : Overwritten s) (beside : Beside s after) :
    AtPc after after.worker := by
  have here := inv.here
  rw [beside.worker]
  cases pc : s.worker with
  | storeStop | storeWaiting | epollWait =>
      rw [pc] at here
      exact beside.flag.trans here
  | storeWorking polled =>
      rw [pc] at here
      refine ⟨beside.flag.trans here.1, ?_⟩
      cases polled with
      | interrupted | failed => trivial
      | events events =>
          obtain ⟨some_, few, single, unread⟩ := here.2
          exact ⟨some_, few, single, fun member => (beside.bytes (unread member)).1⟩
  | dispatch events =>
      rw [pc] at here
      exact dispatching_beside inv beside here
  | running next =>
      cases next with
      | dispatch events =>
          rw [pc] at here
          exact dispatching_beside inv beside here
      | mergeTasks | drainTasks | emptyWrites => trivial
  | loadStatus byte events =>
      rw [pc] at here
      obtain ⟨flag, absent, late⟩ := here
      refine ⟨beside.flag.trans flag, absent, ?_⟩
      intro close
      exact ⟨beside.closer (late close).1, beside.status (late close).1 (late close).2⟩
  | _ => trivial

theorem overwritten_beside (inv : Overwritten s) (beside : Beside s after)
    (written : .close ∈ after.pipe → Written after.closer) : Overwritten after := by
  constructor
  · exact at_pc_beside inv beside
  · exact written
  · intro seen
    rw [beside.seen] at seen
    obtain ⟨closed, status, flag⟩ := inv.seen seen
    exact ⟨beside.closer closed, beside.status closed status, beside.flag.trans flag⟩

theorem write_pipe_head {capacity : Nat} {byte : Signal} {pipe : List Signal} (some_ : pipe ≠ []) :
    writePipe capacity byte pipe ≠ [] ∧ (writePipe capacity byte pipe).head? = pipe.head? := by
  unfold writePipe
  by_cases room : pipe.length < capacity
  · rw [if_pos room]
    exact ⟨by simp, List.head?_append_of_ne_nil pipe some_⟩
  · rw [if_neg room]
    exact ⟨some_, rfl⟩

theorem worker_moved {pc : WorkerPc} (inv : Overwritten s) (here : AtPc s pc) :
    Overwritten { s with worker := pc } := by
  constructor
  · cases pc with
    | running next => cases next <;> first | trivial | exact ⟨here.1, here.2, here.3, here.4⟩
    | dispatch events => exact ⟨here.1, here.2, here.3, here.4⟩
    | storeWorking polled => cases polled <;> exact here
    | _ => exact here
  · exact inv.written
  · exact inv.seen

theorem resume_overwritten {next : Next} (inv : Overwritten s) (pc : s.worker = .running next) :
    Overwritten { s with worker := next.pc } := by
  apply worker_moved inv
  have here := inv.here
  rw [pc] at here
  cases next with
  | dispatch events => exact here
  | mergeTasks | drainTasks | emptyWrites => trivial

theorem store_working_overwritten {polled : Polled} (inv : Overwritten s)
    (pc : s.worker = .storeWorking polled) :
    Overwritten { s with status := .working, worker := afterPoll polled } := by
  have here := inv.here
  rw [pc] at here
  obtain ⟨flag, ready⟩ := here
  constructor
  · cases polled with
    | interrupted | failed => trivial
    | events events =>
        constructor
        · exact ready.2.2.1
        · exact fun _ => flag
        · exact ready.2.2.2
        · exact fun _ _ => Status.noConfusion
  · exact inv.written
  · intro seen
    exact ⟨(inv.seen seen).1, Status.noConfusion, flag⟩

theorem read_pipe_overwritten {byte : Signal} {bytes : List Signal} {rest : List Event}
    (inv : Overwritten s) (pc : s.worker = .dispatch (.pipe :: rest))
    (listed : s.pipe = byte :: bytes) :
    Overwritten { s with pipe := bytes, worker := .loadStatus (some byte) rest } := by
  have here := inv.here
  rw [pc] at here
  have single := here.single
  rw [List.count_cons_self] at single
  have absent : Event.pipe ∉ rest := List.count_eq_zero.mp (by omega)
  constructor
  · refine ⟨here.open_ List.mem_cons_self, absent, ?_⟩
    intro close
    have head : s.pipe.head? = some .close := by
      rw [listed]
      exact close
    have closed : Written s.closer := head_written inv head
    exact ⟨closed, here.late List.mem_cons_self head⟩
  · intro member
    apply inv.written
    rw [listed]
    exact List.mem_cons_of_mem _ member
  · exact inv.seen

theorem load_status_overwritten {byte : Option Signal} {events : List Event} (inv : Overwritten s)
    (pc : s.worker = .loadStatus byte events) :
    Overwritten { s with
      closeFlag := s.closeFlag || s.status = .readyClose
      closeSeen := s.closeSeen || byte = some .close
      worker := .dispatch events } := by
  have here := inv.here
  rw [pc] at here
  obtain ⟨flag, absent, late⟩ := here
  have none_ : events.count .pipe = 0 := List.count_eq_zero.mpr absent
  constructor
  · exact ⟨by omega, fun member => (absent member).elim, fun member => (absent member).elim,
      fun member => (absent member).elim⟩
  · exact inv.written
  · intro seen
    have both : Written s.closer ∧ s.status ≠ .readyClose := by
      rcases Bool.or_eq_true_iff.mp seen with before | now
      · exact ⟨(inv.seen before).1, (inv.seen before).2.1⟩
      · exact late (of_decide_eq_true now)
    refine ⟨both.1, both.2, ?_⟩
    dsimp only
    rw [flag, decide_eq_false both.2, Bool.false_or]

theorem worker_overwritten (inv : Overwritten s) (step : WorkerStep s after) :
    Overwritten after := by
  have here := inv.here
  cases step with
  | storeReadyWaiting pc =>
      exact ⟨trivial, inv.written, fun seen =>
        ⟨(inv.seen seen).1, Status.noConfusion, (inv.seen seen).2.2⟩⟩
  | storeWaiting pc =>
      rw [pc] at here
      exact ⟨here, inv.written, fun seen => ⟨(inv.seen seen).1, Status.noConfusion, here⟩⟩
  | storeStop pc =>
      exact ⟨trivial, inv.written, fun seen =>
        ⟨(inv.seen seen).1, Status.noConfusion, (inv.seen seen).2.2⟩⟩
  | startLocal pc listed | startMerged pc listed | startTask pc listed | takeWrite pc listed =>
      exact ⟨trivial, inv.written, inv.seen⟩
  | noLocal pc empty | noTask pc empty | noWrite pc empty | throws pc stuck | someWrite pc
  | missWrite pc => exact worker_moved inv trivial
  | resume pc => exact resume_overwritten inv pc
  | closes pc flag | stays pc flag => exact worker_moved inv flag
  | poll pc ready =>
      rw [pc] at here
      exact worker_moved inv ⟨here, ready⟩
  | storeWorking pc => exact store_working_overwritten inv pc
  | batchDone pc => exact worker_moved inv trivial
  | readPipe pc listed => exact read_pipe_overwritten inv pc listed
  | readNothing pc empty =>
      rw [pc] at here
      exact (here.unread List.mem_cons_self empty).elim
  | processIo pc =>
      rename_i fd rest
      rw [pc] at here
      have later {event : Event} (member : event ∈ rest) : event ∈ Event.io fd :: rest :=
        List.mem_cons_of_mem _ member
      have single : rest.count .pipe ≤ 1 :=
        Nat.le_trans List.count_le_count_cons here.single
      exact worker_moved inv ⟨single, fun member => here.open_ (later member),
        fun member => here.unread (later member), fun member => here.late (later member)⟩
  | loadStatus pc => exact load_status_overwritten inv pc
  | callTask pc | callWrite fd pc =>
      rename_i next
      rw [pc] at here
      refine ⟨?_, inv.written, inv.seen⟩
      dsimp only
      rw [pc]
      cases next with
      | dispatch events => exact ⟨here.1, here.2, here.3, here.4⟩
      | mergeTasks | drainTasks | emptyWrites => trivial

section Threads
variable [DecidableEq τ] {capacity : Nat} {p : τ}

theorem producer_beside (step : ProducerStep capacity s p after) :
    Beside s after ∧ (.close ∈ after.pipe → .close ∈ s.pipe) ∧ after.closer = s.closer := by
  have still : s.pipe ≠ [] → s.pipe ≠ [] ∧ s.pipe.head? = s.pipe.head? := fun bytes => ⟨bytes, rfl⟩
  cases step with
  | signal pc =>
      rename_i item
      have only : .close ∈ writePipe capacity .task s.pipe → .close ∈ s.pipe := by
        unfold writePipe
        by_cases room : s.pipe.length < capacity <;> simp [room]
      cases item <;>
        exact ⟨⟨rfl, rfl, rfl, write_pipe_head, fun closed => closed, fun _ status => status⟩,
          only, rfl⟩
  | skip pc works =>
      rename_i item
      cases item <;>
        exact ⟨⟨rfl, rfl, rfl, still, fun closed => closed, fun _ status => status⟩,
          fun member => member, rfl⟩
  | callTask pc | callWrite fd pc | count pc | pushTask pc | pushWrite pc | alert pc rests =>
      exact ⟨⟨rfl, rfl, rfl, still, fun closed => closed, fun _ status => status⟩,
        fun member => member, rfl⟩

theorem producer_overwritten (inv : Overwritten s) (step : ProducerStep capacity s p after) :
    Overwritten after := by
  obtain ⟨beside, only, same⟩ := producer_beside step
  apply overwritten_beside inv beside
  intro member
  rw [same]
  exact inv.written (only member)

omit [DecidableEq τ] in
theorem closer_overwritten (inv : Overwritten s) (step : CloserStep capacity s after) :
    Overwritten after := by
  have still : s.pipe ≠ [] → s.pipe ≠ [] ∧ s.pipe.head? = s.pipe.head? := fun bytes => ⟨bytes, rfl⟩
  cases step with
  | write pc room =>
      have early : ¬Written s.closer := by
        rw [pc]
        exact fun closed => closed
      have heads (bytes : s.pipe ≠ []) : s.pipe ++ [Signal.close] ≠ [] ∧
          (s.pipe ++ [Signal.close]).head? = s.pipe.head? :=
        ⟨by simp, List.head?_append_of_ne_nil s.pipe bytes⟩
      exact overwritten_beside inv
        ⟨rfl, rfl, rfl, heads, fun closed => (early closed).elim, fun _ status => status⟩
        (fun _ => trivial)
  | store pc | call pc | proceed pc | full pc =>
      -- none of these points is reached again after the byte is written
      have early : ¬Written s.closer := by
        rw [pc]
        exact fun closed => closed
      exact overwritten_beside inv
        ⟨rfl, rfl, rfl, still, fun closed => (early closed).elim, fun closed => (early closed).elim⟩
        (fun member => (early (inv.written member)).elim)
  | stopped pc | join pc =>
      exact overwritten_beside inv
        ⟨rfl, rfl, rfl, still, fun _ => trivial, fun _ status => status⟩ (fun _ => trivial)

/-- Once the worker has read the destructor's byte and looked at `status`,
`close_flag` is not set, then and at any later time, and the worker is never about
to store `stop_work`. -/
theorem close_byte_without_flag (reached : Reachable (loopSystem τ capacity) s)
    (seen : s.closeSeen = true) : s.closeFlag = false ∧ s.worker ≠ .storeStop := by
  have inv : Overwritten s := by
    apply loop_invariant _ _ _ _ reached
    · exact ⟨trivial, fun member => (List.not_mem_nil member).elim, Bool.noConfusion⟩
    · exact fun _ _ holds step => worker_overwritten holds step
    · exact fun _ _ _ holds step => producer_overwritten holds step
    · exact fun _ _ holds step => closer_overwritten holds step
  have flag := (inv.seen seen).2.2
  constructor
  · exact flag
  · intro stops
    have here := inv.here
    rw [stops] at here
    exact Bool.noConfusion (flag.symm.trans here)

end Threads

/-- The worker is in `epoll_wait` when the destructor stores its request and
writes its byte; then it wakes up and reads the byte. -/
def requestRead : Loop Unit :=
  (afterMoves 65536 [.worker .advance, .worker .advance, .worker .advance, .worker .advance,
    .worker .advance, .worker .advance, .closer, .closer, .closer, .closer,
    .worker (.poll (.events [.pipe])), .worker .advance, .worker .advance,
    .worker .advance]).get (by decide +kernel)

theorem request_read_reachable : Reachable (loopSystem Unit 65536) requestRead :=
  moves_reachable (by decide +kernel)

theorem close_byte_without_flag_read : requestRead.closeFlag = false ∧ requestRead.worker ≠ .storeStop :=
  close_byte_without_flag request_read_reachable (by decide +kernel)

/-- The request is lost while the destructor is in `join`. -/
theorem request_lost : Reachable (loopSystem Unit 65536) requestRead ∧
    requestRead.closer = .joining ∧ requestRead.closeSeen = true ∧
    ¬requestRead.closeFlag = true :=
  ⟨request_read_reachable, by decide +kernel, by decide +kernel, by decide +kernel⟩

end Npoller.Shutdown
