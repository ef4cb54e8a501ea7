import Npoller.ReadStage
import Npoller.TcpChanges

/-!
The read operations of any number of ios on one event loop, with the number of bytes
in each read buffer: `process` on a read operation is true exactly when there are
enough for it. A tcp runs `tcp::process_event`; any other io, an acceptor too, runs
`io::process_event`, of which the write side is left to the environment. Both are
reading sides in the sense of `ReadStage`.
-/

namespace Npoller.StrandedReads

open DirectIo IoBuffer IoWrite MemContainer ReadStage StepSystem TcpChanges TcpLoop TcpSetters

/-- `process` on an operation of this need, if there is one, leaves `now` bytes. -/
def Processes (need : Option Nat) (available : Nat) (result : Bool) (now : Nat) : Prop :=
  match need with
  | none => now = available
  | some need => (result = true ↔ need ≤ available) ∧ now ≤ available

instance (need : Option Nat) (available : Nat) (result : Bool) (now : Nat) :
    Decidable (Processes need available result now) :=
  match need with
  | none => inferInstanceAs (Decidable (_ = _))
  | some _ => inferInstanceAs (Decidable (_ ∧ _))

theorem too_few {need available : Nat} (exact_ : false = true ↔ need ≤ available) :
    available < need :=
  Nat.lt_of_not_le (mt exact_.mpr Bool.false_ne_true)

section Tcp
variable {θ : Type*}

structure TcpReader (θ : Type*) where
  tcp : Tcp θ
  available : Nat

def task : Instr → Task
  | .directRead => .fill
  | .processRead => .process
  | .readLoop => .loop
  | .clearTemp => .clear
  | _ => .other

def TcpReader.stage (s : TcpReader θ) : Stage :=
  { managed := s.tcp.managed
    available := s.available
    current := s.tcp.tempReadEvent.map Op.size
    queue := s.tcp.readList.map Op.size
    todo := s.tcp.todo.map task }

/-- The need of the operation whose `process` is called next. -/
def TcpReader.asked (s : TcpReader θ) : Option Nat :=
  match s.tcp.todo with
  | .processRead :: _ => s.stage.current
  | .readLoop :: _ => s.stage.queue.head?
  | _ => none

/-- How many bytes a step leaves: only `direct_read` adds some. -/
def Leaves (s : TcpReader θ) (now : Nat) : Move θ → Prop
  | .loop (.processed result) => Processes s.asked s.available result now
  | .loop (.read _) =>
      if s.tcp.todo.head? = some .directRead ∧ Readable s.tcp.status then s.available ≤ now
      else now = s.available
  | _ => now = s.available

instance (s : TcpReader θ) (now : Nat) : (move : Move θ) → Decidable (Leaves s now move)
  | .loop (.processed result) =>
      inferInstanceAs (Decidable (Processes s.asked s.available result now))
  | .loop (.read _) =>
      inferInstanceAs (Decidable (if s.tcp.todo.head? = some .directRead ∧ Readable s.tcp.status
        then s.available ≤ now else now = s.available))
  | .loop (.flushed _) | .loop (.wrote _) | .loop (.connected _) | .loop .closes | .loop .returns
  | .call _ | .register _ _ _ _ | .advance _ => inferInstanceAs (Decidable (_ = _))

def tcpRun [DecidableEq θ] (s : TcpReader θ) (move : Move θ) (now : Nat) : Option (TcpReader θ) :=
  if Leaves s now move then (move.run s.tcp).map (⟨·, now⟩) else none

/-- The need of the read operation that a thread is about to push. -/
def pushed : RegisterPc → Option Nat
  | .pushing ⟨_, .read, size⟩ => some size
  | _ => none

/-- A read operation is not pushed onto an empty queue whose bytes are there already,
unless a look at the queue is still to come. -/
def TimelyTcp (s : TcpReader θ) : Move θ → Prop
  | .advance t => ReadStage.Timely s.stage (pushed (s.tcp.threads t))
  | _ => True

instance (s : TcpReader θ) : (move : Move θ) → Decidable (TimelyTcp s move)
  | .advance t => inferInstanceAs (Decidable (ReadStage.Timely s.stage (pushed (s.tcp.threads t))))
  | .call _ | .loop _ | .register _ _ _ _ => inferInstanceAs (Decidable True)

variable {s after : TcpReader θ} {new : Tcp θ} {rest : List Instr} {instr : Instr} {input : Input}

structure OtherStep (old : Tcp θ) (rest : List Instr) (new : Tcp θ) : Prop where
  pushes : ∃ next, new.todo = next ++ rest ∧ Paired (next.map task)
  parked : new.tempReadEvent = old.tempReadEvent
  listed : new.readList = old.readList
  managed : new.managed = true → old.managed = true

theorem body_paired (events : Events) : Paired ((eventBody events).map task) := by
  rcases events with ⟨epollin, epollout, epollrdhup⟩
  cases epollin <;> cases epollrdhup <;> simp [eventBody, task, Paired]

theorem dispatched_paired (events : Events) (status : TcpStatus) :
    Paired ((dispatched events status).map task) := by
  cases status with
  | initializing | connected => exact body_paired events
  | connecting => simp [dispatched, task, Paired]
  | peerShutdownWrite =>
      simp only [dispatched]
      split
      · simp [task, Paired]
      · exact body_paired events
  | shutdownWrite =>
      simp only [dispatched]
      split
      · exact body_paired events
      · exact body_paired events
  | closed | invalid => simp [dispatched, task, Paired]

theorem after_reconnect_paired (events : Events) (status : TcpStatus) :
    Paired ((afterReconnect events status).map task) := by
  cases status with
  | connected => exact body_paired events
  | connecting => simp [afterReconnect, task, Paired]
  | initializing | peerShutdownWrite | shutdownWrite | closed | invalid =>
      simp [afterReconnect, Paired]

theorem connect_result_other {old : Tcp θ} (first : Bool) (result : TcpRace.ConnectResult) :
    OtherStep old rest (old.connectResult first rest result) := by
  have handled : Paired (old.handleConnectResult.map task) := by
    unfold Tcp.handleConnectResult
    split <;> simp [task, Paired]
  have closed : Paired ((old.handleConnectResult ++ [Instr.close]).map task) := by
    rw [List.map_append]
    exact paired_append handled trivial
  cases result with
  | succeeded | isConnected => exact ⟨⟨_, rfl, handled⟩, rfl, rfl, id⟩
  | inProgress => exact ⟨⟨[], rfl, trivial⟩, rfl, rfl, id⟩
  | interrupted =>
      cases first with
      | true => exact ⟨⟨[], rfl, trivial⟩, rfl, rfl, id⟩
      | false => exact ⟨⟨_, rfl, closed⟩, rfl, rfl, id⟩
  | unknown =>
      cases first with
      | true => exact ⟨⟨_, rfl, closed⟩, rfl, rfl, id⟩
      | false => exact ⟨⟨[], rfl, trivial⟩, rfl, rfl, id⟩
  | refused => exact ⟨⟨_, rfl, closed⟩, rfl, rfl, id⟩

theorem other_step {old : Tcp θ} (other : task instr = .other)
    (moves : old.run rest instr input = some new) : OtherStep old rest new := by
  cases instr with
  | dispatch events =>
      cases moves
      exact ⟨⟨_, rfl, dispatched_paired events old.status⟩, rfl, rfl, id⟩
  | afterReconnect events =>
      cases moves
      exact ⟨⟨_, rfl, after_reconnect_paired events old.status⟩, rfl, rfl, id⟩
  | connect | reconnect =>
      cases input with
      | connected result =>
          cases moves
          split
          · exact connect_result_other _ result
          · exact ⟨⟨[], rfl, trivial⟩, rfl, rfl, id⟩
      | _ => cases moves
  | clearHandler | set | eraseFront | closeStatus =>
      cases moves
      exact ⟨⟨[], rfl, trivial⟩, rfl, rfl, id⟩
  | dropManager =>
      cases moves
      exact ⟨⟨[], rfl, trivial⟩, rfl, rfl, nofun⟩
  | checkReadable =>
      cases moves
      refine ⟨⟨_, rfl, ?_⟩, rfl, rfl, id⟩
      split <;> simp [task, Paired]
  | writeStage =>
      cases moves
      refine ⟨⟨_, rfl, ?_⟩, rfl, rfl, id⟩
      split <;> simp [task, Paired]
  | finishEvent =>
      cases moves
      refine ⟨⟨_, rfl, ?_⟩, rfl, rfl, id⟩
      split <;> simp [task, Paired]
  | getEvent =>
      cases moves
      refine ⟨⟨_, rfl, ?_⟩, rfl, rfl, id⟩
      split <;> simp [task, Paired]
  | writeFlush =>
      cases input with
      | flushed writeBuffer =>
          simp only [Tcp.run] at moves
          split at moves
          · cases moves
            exact ⟨⟨[], rfl, trivial⟩, rfl, rfl, id⟩
          · cases moves
            exact ⟨⟨[.writeFlush], rfl, trivial⟩, rfl, rfl, id⟩
      | _ => cases moves
  | directWrite =>
      have written (status : TcpStatus) : Paired ((afterDirectWrite status).map task) := by
        unfold afterDirectWrite
        split <;> simp [task, Paired]
      cases input with
      | wrote results =>
          simp only [Tcp.run] at moves
          split at moves
          · split at moves
            · cases moves
              exact ⟨⟨_, rfl, written _⟩, rfl, rfl, id⟩
            · cases moves
          · cases moves
            exact ⟨⟨_, rfl, written _⟩, rfl, rfl, id⟩
      | _ => cases moves
  | processWrite =>
      simp only [Tcp.run] at moves
      split at moves
      · cases moves
        exact ⟨⟨[], rfl, trivial⟩, rfl, rfl, id⟩
      · split at moves
        · cases moves
          exact ⟨⟨[.callback, .eraseFront, .processWrite], rfl, trivial⟩, rfl, rfl, id⟩
        · cases moves
          exact ⟨⟨[], rfl, trivial⟩, rfl, rfl, id⟩
  | callback =>
      cases input with
      | returns =>
          cases moves
          exact ⟨⟨[], rfl, trivial⟩, rfl, rfl, id⟩
      | closes =>
          cases moves
          exact ⟨⟨[.close, .callback], rfl, trivial⟩, rfl, rfl, id⟩
      | _ => cases moves
  | close =>
      cases moves
      exact ⟨⟨[.processRead, .cleanWrite, .dropManager, .closeStatus], rfl, trivial⟩, rfl, rfl, id⟩
  | cleanWrite =>
      simp only [Tcp.run] at moves
      split at moves
      · cases moves
        exact ⟨⟨[], rfl, trivial⟩, rfl, rfl, id⟩
      · cases moves
        exact ⟨⟨[.callback, .cleanWrite], rfl, trivial⟩, rfl, rfl, id⟩
  | directRead | processRead | readLoop | clearTemp => cases other

theorem closing_paired {p : Prop} [Decidable p] :
    Paired ((if p then [Instr.close] else []).map task) := by
  split <;> trivial

theorem leaves_same {now : Nat} (at_ : s.tcp.todo = instr :: rest)
    (other : task instr = .other ∨ task instr = .clear) (leaves : Leaves s now (.loop input)) :
    now = s.available := by
  cases input with
  | processed result =>
      have silent : s.asked = none := by
        unfold TcpReader.asked
        rw [at_]
        split
        · rename_i same
          cases same
          rcases other with no | no <;> cases no
        · rename_i same
          cases same
          rcases other with no | no <;> cases no
        · rfl
      rw [Leaves, silent] at leaves
      exact leaves
  | read exit =>
      rw [Leaves, at_, if_neg] at leaves
      · exact leaves
      · rintro ⟨same, _⟩
        cases same
        rcases other with no | no <;> cases no
  | flushed | wrote | connected | closes | returns => exact leaves

theorem process_stage (at_ : s.tcp.todo = .processRead :: rest)
    (moved : s.tcp.run rest .processRead input = some after.tcp)
    (leaves : Leaves s after.available (.loop input)) : StageStep s.stage after.stage := by
  obtain ⟨new, now⟩ := after
  have todo : s.stage.todo = .process :: rest.map task := by
    simp [TcpReader.stage, at_, task]
  cases input with
  | processed result =>
      simp only [Leaves, TcpReader.asked, at_] at leaves
      simp only [Tcp.run] at moved
      split at moved
      · rename_i none_
        cases moved
        have current : s.stage.current = none := by simp [TcpReader.stage, none_]
        rw [current] at leaves
        cases leaves
        exact .looks todo current
      · rename_i op parked
        have current : s.stage.current = some op.size := by simp [TcpReader.stage, parked]
        rw [current] at leaves
        obtain ⟨exact_, takes⟩ := leaves
        cases result with
        | true =>
            rw [if_pos rfl] at moved
            cases moved
            exact .finishes todo current (exact_.mp rfl) takes
        | false =>
            rw [if_neg Bool.false_ne_true] at moved
            cases moved
            exact .waits todo current (too_few exact_) takes
  | flushed | read | wrote | connected | closes | returns => cases moved

theorem loop_read_stage (at_ : s.tcp.todo = .readLoop :: rest)
    (moved : s.tcp.run rest .readLoop input = some after.tcp)
    (leaves : Leaves s after.available (.loop input)) : StageStep s.stage after.stage := by
  obtain ⟨new, now⟩ := after
  have todo : s.stage.todo = .loop :: rest.map task := by
    simp [TcpReader.stage, at_, task]
  cases input with
  | processed result =>
      simp only [Leaves, TcpReader.asked, at_] at leaves
      simp only [Tcp.run] at moved
      split at moved
      · rename_i none_
        cases moved
        have queue : s.stage.queue = [] := by simp [TcpReader.stage, none_]
        rw [queue] at leaves
        cases leaves
        exact .drained todo queue
      · rename_i op ops listed
        have queue : s.stage.queue = op.size :: ops.map Op.size := by
          simp [TcpReader.stage, listed]
        rw [queue] at leaves
        obtain ⟨exact_, takes⟩ := leaves
        cases result with
        | true =>
            rw [if_pos rfl] at moved
            cases moved
            exact .takes todo queue (exact_.mp rfl) takes
        | false =>
            rw [if_neg Bool.false_ne_true] at moved
            cases moved
            exact .parks todo queue (too_few exact_) takes
  | flushed | read | wrote | connected | closes | returns => cases moved

theorem loop_stage (at_ : s.tcp.todo = instr :: rest)
    (moved : s.tcp.run rest instr input = some after.tcp)
    (leaves : Leaves s after.available (.loop input)) : StageStep s.stage after.stage := by
  have others (other : task instr = .other) : StageStep s.stage after.stage := by
    obtain ⟨⟨next, now, paired⟩, parked, listed, managed⟩ := other_step other moved
    have same := leaves_same at_ (.inl other) leaves
    have todo : s.stage.todo = .other :: rest.map task := by
      simp [TcpReader.stage, at_, other]
    have seen : after.stage = { s.stage with
        managed := after.tcp.managed, todo := next.map task ++ rest.map task } := by
      simp [TcpReader.stage, now, same, parked, listed]
    rw [seen]
    exact .goes todo paired managed
  -- Four instructions are about reading; `direct_read` alone may add bytes.
  cases instr with
  | directRead =>
      obtain ⟨new, available⟩ := after
      have todo : s.stage.todo = .fill :: rest.map task := by
        simp [TcpReader.stage, at_, task]
      cases input with
      | read exit =>
          cases moved
          have seen (status : TcpStatus) (pushed : List Instr) :
              TcpReader.stage ⟨{ s.tcp with status, todo := pushed ++ rest }, available⟩ =
                { s.stage with available, todo := pushed.map task ++ rest.map task } := by
            simp [TcpReader.stage]
          rw [seen]
          exact .fills todo closing_paired id
      | processed | flushed | wrote | connected | closes | returns => cases moved
  | processRead => exact process_stage at_ moved leaves
  | readLoop => exact loop_read_stage at_ moved leaves
  | clearTemp =>
      obtain ⟨new, available⟩ := after
      have todo : s.stage.todo = .clear :: rest.map task := by
        simp [TcpReader.stage, at_, task]
      have same := leaves_same at_ (.inr rfl) leaves
      cases same
      cases moved
      exact .clears todo
  | dispatch | afterReconnect | connect | reconnect | clearHandler | checkReadable | set
  | writeFlush | writeStage | directWrite | processWrite | eraseFront | finishEvent | getEvent
  | callback | close | cleanWrite | dropManager | closeStatus => exact others rfl

section Threads
variable [DecidableEq θ] {t : θ}

omit [DecidableEq θ] in
theorem call_stage {made : Call} (moved : callMove s.tcp made = some after.tcp)
    (same : after.available = s.available) : StageStep s.stage after.stage := by
  obtain ⟨new, available⟩ := after
  cases same
  have empty := (call_steps moved).1
  have idle : s.stage.todo = [] := by
    simp [TcpReader.stage, empty]
  cases made with
  | event | instantWrite =>
      simp only [callMove] at moved
      split at moved
      · cases moved
        exact .begins idle trivial
      · cases moved
  | connect | close =>
      rw [callMove, if_pos empty] at moved
      cases moved
      exact .begins idle trivial

omit [DecidableEq θ] in
theorem pushed_reads {op : TcpLoop.Op} (type : op.type = .read) :
    pushed (.pushing op) = some op.size := by
  obtain ⟨id, _, size⟩ := op
  cases type
  rfl

theorem register_stage {now : Nat} (same : now = s.available) (step : RegisterStep s.tcp t new) :
    TcpReader.stage ⟨new, now⟩ = s.stage ∨ ∃ need, pushed (s.tcp.threads t) = some need ∧
      TcpReader.stage ⟨new, now⟩ = { s.stage with queue := s.stage.queue ++ [need] } := by
  cases same
  cases step with
  | @pushedRead op pc type =>
      -- Only here does `do_register` touch `read_list`.
      refine .inr ⟨op.size, ?_, ?_⟩
      · rw [pc]
        exact pushed_reads type
      · simp [TcpReader.stage, Tcp.setThread]
  | begun | refused | passed | pushedWrite | announced => exact .inl rfl

theorem tcp_stage {move : Move θ} {now : Nat} (timely : TimelyTcp s move)
    (step : tcpRun s move now = some after) :
    ∃ seen, ReadStage.Timely s.stage seen ∧ stageSystem.step s.stage seen after.stage := by
  unfold tcpRun at step
  split at step
  · rename_i leaves
    obtain ⟨new, moved, rfl⟩ := Option.map_eq_some_iff.mp step
    cases move with
    | call made => exact ⟨none, trivial, call_stage moved leaves⟩
    | loop input =>
        obtain ⟨_, _, at_, ran⟩ := loop_at moved
        exact ⟨none, trivial, loop_stage at_ ran leaves⟩
    | register t type ioId size =>
        have same : now = s.available := leaves
        have began : RegisterStep s.tcp t new := register_steps moved
        rcases register_stage same began with seen | ⟨need, pc, _⟩
        · rw [seen]
          exact ⟨none, trivial, .stays⟩
        · rw [register_idle moved] at pc
          cases pc
    | advance t =>
        have same : now = s.available := leaves
        have advanced : RegisterStep s.tcp t new := advance_steps moved
        rcases register_stage same advanced with seen | ⟨need, pc, seen⟩
        · rw [seen]
          exact ⟨none, trivial, .stays⟩
        · rw [TimelyTcp, pc] at timely
          exact ⟨some need, timely, seen⟩
  · cases step

end Threads

end Tcp

section Plain

inductive PlainInstr where
  | directRead
  | processRead
  | readLoop
  | clearTemp
  | callback
  | setUnreadable
  | writeFlush
  | writeStage (epollout : Bool)
  | directWrite
  | processWrite
  | checkReadable
  | checkWritable
  | cleanWrite
  deriving DecidableEq

structure PlainFlags where
  readable : Bool
  writable : Bool
  writeBusy : Bool
  managed : Bool

/-- `available` counts the bytes in `read_buffer`. -/
structure PlainIo where
  flags : PlainFlags
  available : Nat
  tempReadEvent : Option Nat
  readList : List Nat
  todo : List PlainInstr

/-- What the environment decides: the result of `process`, the bytes and the flags that
a system call or an accept callback leaves, whether another write operation is notified. -/
inductive PlainInput where
  | processed (result : Bool) (available : Nat)
  | read (available : Nat) (flags : PlainFlags)
  | wrote (flags : PlainFlags)
  | notifies (more : Bool)
  | goes

/-- `io::process_event` -/
def plainEvent (events : Events) : List PlainInstr :=
  (if events.epollin then [.directRead, .processRead] else []) ++
    (if events.epollrdhup then [.setUnreadable, .processRead] else []) ++
    [.writeFlush, .writeStage events.epollout, .checkReadable, .checkWritable]

def PlainIo.run (s : PlainIo) (rest : List PlainInstr) : PlainInstr → PlainInput → Option PlainIo
  -- An EBADF ends the registration; an acceptor's callback may do anything to other ios.
  | .directRead, .read available flags =>
      if flags.managed = true → s.flags.managed = true then
        some { s with flags, available, todo := rest }
      else none
  | .processRead, .processed result available =>
      if Processes s.tempReadEvent s.available result available then
        match s.tempReadEvent, result with
        | none, _ => some { s with todo := .readLoop :: rest }
        | some _, true =>
            some { s with available, todo := .callback :: .clearTemp :: .readLoop :: rest }
        | some _, false => some { s with available, todo := rest }
      else none
  | .readLoop, .processed result available =>
      if Processes s.readList.head? s.available result available then
        match s.readList, result with
        | [], _ => some { s with todo := rest }
        | _ :: readList, true =>
            some { s with available, readList, todo := .callback :: .readLoop :: rest }
        | need :: readList, false =>
            some { s with available, readList, tempReadEvent := some need, todo := rest }
      else none
  | .clearTemp, _ => some { s with tempReadEvent := none, todo := rest }
  | .callback, _ | .writeFlush, _ => some { s with todo := rest }
  | .setUnreadable, _ => some { s with flags := { s.flags with readable := false }, todo := rest }
  | .writeStage epollout, _ =>
      some { s with todo := (if epollout || !s.flags.writeBusy then [.directWrite, .processWrite]
        else []) ++ rest }
  | .directWrite, .wrote flags =>
      if flags.managed = true → s.flags.managed = true then some { s with flags, todo := rest }
      else none
  | .processWrite, .notifies more =>
      some { s with todo := (if more then [.callback, .processWrite] else []) ++ rest }
  | .checkReadable, _ =>
      some { s with todo := (if s.flags.readable then [] else [.processRead]) ++ rest }
  | .checkWritable, _ =>
      some { s with todo := (if s.flags.writable then [] else [.cleanWrite]) ++ rest }
  | .cleanWrite, .notifies more =>
      some { s with todo := (if more then [.callback, .cleanWrite] else []) ++ rest }
  | _, _ => none

/-- `push` is the push of a `do_register` that has passed its tests, on any thread. `leave`
takes the manager away, as `mark_invalid` does; `remove_io` keeps it. -/
inductive PlainMove where
  | event (events : Events)
  | instantWrite
  | loop (input : PlainInput)
  | push (need : Nat)
  | leave

def plainRun (s : PlainIo) : PlainMove → Option PlainIo
  | .event events =>
      if s.todo = [] ∧ s.flags.managed then some { s with todo := plainEvent events } else none
  | .instantWrite =>
      if s.todo = [] then some { s with todo := [.writeFlush, .directWrite, .processWrite] }
      else none
  | .loop input =>
      match s.todo with
      | [] => none
      | instr :: rest => s.run rest instr input
  | .push need => some { s with readList := s.readList ++ [need] }
  | .leave => some { s with flags := { s.flags with managed := false } }

def plainTask : PlainInstr → Task
  | .directRead => .fill
  | .processRead => .process
  | .readLoop => .loop
  | .clearTemp => .clear
  | _ => .other

def PlainIo.stage (s : PlainIo) : Stage :=
  ⟨s.flags.managed, s.available, s.tempReadEvent, s.readList, s.todo.map plainTask⟩

def TimelyPlain (s : PlainIo) : PlainMove → Prop
  | .push need => ReadStage.Timely s.stage (some need)
  | _ => True

instance (s : PlainIo) : (move : PlainMove) → Decidable (TimelyPlain s move)
  | .push need => inferInstanceAs (Decidable (ReadStage.Timely s.stage (some need)))
  | .event _ | .instantWrite | .loop _ | .leave => inferInstanceAs (Decidable True)

variable {s after : PlainIo} {rest : List PlainInstr} {instr : PlainInstr} {input : PlainInput}

theorem plain_process_stage (at_ : s.todo = .processRead :: rest)
    (moved : s.run rest .processRead input = some after) : StageStep s.stage after.stage := by
  have todo : s.stage.todo = .process :: rest.map plainTask := by
    simp [PlainIo.stage, at_, plainTask]
  cases input with
  | processed result available =>
      simp only [PlainIo.run] at moved
      split at moved
      · rename_i processes
        split at moved
        · rename_i parked
          cases moved
          exact .looks todo parked
        · rename_i parked
          cases moved
          rw [parked] at processes
          obtain ⟨exact_, takes⟩ := processes
          exact .finishes todo parked (exact_.mp rfl) takes
        · rename_i need parked
          cases moved
          rw [parked] at processes
          obtain ⟨exact_, takes⟩ := processes
          exact .waits todo parked (too_few exact_) takes
      · cases moved
  | read | wrote | notifies | goes => cases moved

theorem plain_read_stage (at_ : s.todo = .readLoop :: rest)
    (moved : s.run rest .readLoop input = some after) : StageStep s.stage after.stage := by
  have todo : s.stage.todo = .loop :: rest.map plainTask := by
    simp [PlainIo.stage, at_, plainTask]
  cases input with
  | processed result available =>
      simp only [PlainIo.run] at moved
      split at moved
      · rename_i processes
        split at moved
        · rename_i listed
          cases moved
          exact .drained todo listed
        · rename_i listed
          cases moved
          rw [listed] at processes
          obtain ⟨exact_, takes⟩ := processes
          exact .takes todo listed (exact_.mp rfl) takes
        · rename_i need readList listed
          cases moved
          rw [listed] at processes
          obtain ⟨exact_, takes⟩ := processes
          exact .parks todo listed (too_few exact_) takes
      · cases moved
  | read | wrote | notifies | goes => cases moved

theorem plain_loop_stage (at_ : s.todo = instr :: rest)
    (moved : s.run rest instr input = some after) : StageStep s.stage after.stage := by
  have todo : s.stage.todo = plainTask instr :: rest.map plainTask := by
    simp [PlainIo.stage, at_]
  have others (other : plainTask instr = .other) (flags : PlainFlags) (next : List PlainInstr)
      (paired : Paired (next.map plainTask))
      (managed : flags.managed = true → s.flags.managed = true) :
      StageStep s.stage (PlainIo.stage { s with flags, todo := next ++ rest }) := by
    have seen : PlainIo.stage { s with flags, todo := next ++ rest } = { s.stage with
        managed := flags.managed, todo := next.map plainTask ++ rest.map plainTask } := by
      simp [PlainIo.stage]
    rw [seen]
    rw [other] at todo
    exact .goes todo paired managed
  have pops (other : plainTask instr = .other) :
      StageStep s.stage (PlainIo.stage { s with todo := rest }) :=
    others other s.flags [] trivial id
  cases instr with
  | directRead =>
      cases input with
      | read available flags =>
          simp only [PlainIo.run] at moved
          split at moved
          · rename_i managed
            cases moved
            have none_ : Paired [] := trivial
            exact .fills todo none_ managed
          · cases moved
      | processed | wrote | notifies | goes => cases moved
  | processRead => exact plain_process_stage at_ moved
  | readLoop => exact plain_read_stage at_ moved
  | clearTemp =>
      cases moved
      exact .clears todo
  | callback | writeFlush =>
      cases moved
      exact pops rfl
  | setUnreadable =>
      cases moved
      exact others rfl _ [] trivial id
  | writeStage epollout =>
      cases moved
      refine others rfl s.flags _ ?_ id
      split <;> trivial
  | directWrite =>
      cases input with
      | wrote flags =>
          simp only [PlainIo.run] at moved
          split at moved
          · rename_i managed
            cases moved
            exact others rfl flags [] trivial managed
          · cases moved
      | processed | read | notifies | goes => cases moved
  | processWrite | cleanWrite =>
      cases input with
      | notifies more =>
          cases moved
          refine others rfl s.flags _ ?_ id
          split <;> trivial
      | processed | read | wrote | goes => cases moved
  | checkReadable | checkWritable =>
      cases moved
      refine others rfl s.flags _ ?_ id
      split <;> trivial

theorem plain_event_paired (events : Events) : Paired ((plainEvent events).map plainTask) := by
  rcases events with ⟨epollin, epollout, epollrdhup⟩
  cases epollin <;> cases epollrdhup <;> simp [plainEvent, plainTask, Paired]

theorem plain_stage {move : PlainMove} (timely : TimelyPlain s move)
    (moved : plainRun s move = some after) :
    ∃ seen, ReadStage.Timely s.stage seen ∧ stageSystem.step s.stage seen after.stage := by
  cases move with
  | event events =>
      simp only [plainRun] at moved
      split at moved
      · rename_i guard
        cases moved
        have idle : s.stage.todo = [] := by simp [PlainIo.stage, guard.1]
        exact ⟨none, trivial, .begins idle (plain_event_paired events)⟩
      · cases moved
  | instantWrite =>
      simp only [plainRun] at moved
      split at moved
      · rename_i guard
        cases moved
        have idle : s.stage.todo = [] := by simp [PlainIo.stage, guard]
        exact ⟨none, trivial, .begins idle trivial⟩
      · cases moved
  | loop input =>
      simp only [plainRun] at moved
      split at moved
      · cases moved
      · rename_i at_
        exact ⟨none, trivial, plain_loop_stage at_ moved⟩
  | push need =>
      cases moved
      exact ⟨some need, timely, rfl⟩
  | leave =>
      cases moved
      exact ⟨none, trivial, .leaves⟩

end Plain

section Ios
variable {θ : Type*}

inductive AnyIo (θ : Type*) where
  | tcp (s : TcpReader θ)
  | plain (s : PlainIo)

inductive AnyMove (θ : Type*) where
  | tcp (move : Move θ) (available : Nat)
  | plain (move : PlainMove)

def AnyIo.stage : AnyIo θ → Stage
  | .tcp s => s.stage
  | .plain s => s.stage

def AnyIo.New [DecidableEq θ] : AnyIo θ → Prop
  | .tcp s => (tcpLoop θ).init s.tcp ∧ s.available = 0
  | .plain s => s.available = 0 ∧ s.tempReadEvent = none ∧ s.readList = [] ∧ s.todo = []

def AnyIo.run [DecidableEq θ] : AnyIo θ → AnyMove θ → Option (AnyIo θ)
  | .tcp s, .tcp move available => (tcpRun s move available).map .tcp
  | .plain s, .plain move => (plainRun s move).map .plain
  | _, _ => none

def Timely : AnyIo θ → AnyMove θ → Prop
  | .tcp s, .tcp move _ => TimelyTcp s move
  | .plain s, .plain move => TimelyPlain s move
  | _, _ => True

instance (io : AnyIo θ) (move : AnyMove θ) : Decidable (Timely io move) :=
  match io, move with
  | .tcp s, .tcp move _ => inferInstanceAs (Decidable (TimelyTcp s move))
  | .plain s, .plain move => inferInstanceAs (Decidable (TimelyPlain s move))
  | .tcp _, .plain _ | .plain _, .tcp _ _ => inferInstanceAs (Decidable True)

def ioSystem (θ : Type*) [DecidableEq θ] : System (AnyIo θ) (AnyMove θ) where
  init io := io.New
  step before move after := before.run move = some after

variable [DecidableEq θ]

theorem new_stage {io : AnyIo θ} (new : io.New) : stageSystem.init io.stage := by
  cases io with
  | tcp s =>
      obtain ⟨tcp, available⟩ := s
      obtain ⟨⟨fd, status, connectHandler, mem, rfl⟩, _⟩ := new
      exact ⟨rfl, rfl, rfl⟩
  | plain s =>
      obtain ⟨_, parked, listed, idle⟩ := new
      refine ⟨?_, parked, listed⟩
      simp [AnyIo.stage, PlainIo.stage, idle]

theorem io_stage {io after : AnyIo θ} {move : AnyMove θ} (timely : Timely io move)
    (moved : io.run move = some after) :
    ∃ seen, ReadStage.Timely io.stage seen ∧ stageSystem.step io.stage seen after.stage := by
  cases io with
  | tcp s =>
      cases move with
      | tcp move available =>
          obtain ⟨new, step, rfl⟩ := Option.map_eq_some_iff.mp moved
          exact tcp_stage timely step
      | plain move => cases moved
  | plain s =>
      cases move with
      | tcp move available => cases moved
      | plain move =>
          obtain ⟨new, step, rfl⟩ := Option.map_eq_some_iff.mp moved
          exact plain_stage timely step

variable {κ : Type*} [DecidableEq κ] {state : κ → Option (AnyIo θ)}

/-- In a run in which no read operation is pushed onto an empty queue whose bytes are
there already, unless the event being handled will still look at the queue: an io that
has a manager and nothing to do has no read operation at the head of its queue that its
read buffer satisfies. -/
theorem no_read_stranded (reached : ReachableBy (family (ioSystem θ) κ) (Each Timely) state) :
    ∀ k io, state k = some io → ¬Stranded io.stage := by
  intro k io here
  apply none_stranded
  apply simulated AnyIo.stage _ _ (component_reachable reached here)
  · exact fun _ new => new_stage new
  · exact fun _ _ _ timely moved => io_stage timely moved

/-- The run of moves of one io that all satisfy `allowed`, on a connected tcp. -/
def afterMoves (allowed : AnyIo θ → AnyMove θ → Prop) [∀ io move, Decidable (allowed io move)]
    (moves : List (AnyMove θ)) : Option (AnyIo θ) :=
  moves.foldlM (fun io move => if allowed io move then io.run move else none)
    (.tcp ⟨.construct 3 .connected false (.initial (fun _ _ => 0) 256), 0⟩)

theorem moves_reachable {allowed : AnyIo θ → AnyMove θ → Prop}
    [∀ io move, Decidable (allowed io move)] {moves : List (AnyMove θ)}
    (ran : (afterMoves allowed moves).isSome) :
    ReachableBy (ioSystem θ) allowed ((afterMoves allowed moves).get ran) := by
  have begins : (ioSystem θ).init
      (.tcp ⟨.construct 3 .connected false (.initial (fun _ _ => 0) 256), 0⟩) :=
    ⟨⟨3, .connected, false, _, rfl⟩, rfl⟩
  exact guarded_reachable (fun _ _ _ moved => moved) (.start begins) (Option.some_get ran).symm

end Ios

def noBytes : Buf := ⟨.initial (fun _ _ => 0) 256, .fresh⟩

def bytesCome (looks : List (AnyMove Unit)) : List (AnyMove Unit) :=
  [.tcp (.call (.event ⟨true, false, false⟩)) 0, .tcp (.loop .returns) 0,
    .tcp (.loop (.read .again)) 4] ++ looks

def eventGoesOn (available : Nat) : List (AnyMove Unit) :=
  [.tcp (.loop .returns) available, .tcp (.loop (.flushed noBytes)) available,
    .tcp (.loop .returns) available, .tcp (.loop (.wrote [])) available,
    .tcp (.loop .returns) available, .tcp (.loop .returns) available,
    .tcp (.loop .returns) available]

def registers (available : Nat) : List (AnyMove Unit) :=
  [.tcp (.register () .read (-1) 2) available, .tcp (.advance ()) available,
    .tcp (.advance ()) available]

def served : AnyIo Unit :=
  (afterMoves Timely (registers 0 ++ bytesCome [.tcp (.loop (.processed false)) 4,
    .tcp (.loop (.processed true)) 2, .tcp (.loop .returns) 2, .tcp (.loop (.processed false)) 2] ++
    eventGoesOn 2)).get (by decide +kernel)

theorem no_read_stranded_served : served.stage.todo = [] ∧ ¬Stranded served.stage :=
  have reached : ReachableBy (ioSystem Unit) Timely served := moves_reachable (by decide +kernel)
  ⟨by decide +kernel, no_read_stranded (single_reachable reached) () served rfl⟩

def late : AnyIo Unit :=
  (afterMoves (fun _ _ => True) (bytesCome [.tcp (.loop (.processed false)) 4,
    .tcp (.loop (.processed false)) 4] ++ eventGoesOn 4 ++ registers 4)).get (by decide +kernel)

theorem late_read_stranded : Reachable (family (ioSystem Unit) Unit) (fun _ => some late) ∧
    Stranded late.stage := by
  refine ⟨reachable_of_allowed (single_reachable (moves_reachable (by decide +kernel))), ?_, ?_, 2,
    ?_, ?_⟩
  · decide +kernel
  · decide +kernel
  · decide +kernel
  · decide +kernel

end Npoller.StrandedReads
