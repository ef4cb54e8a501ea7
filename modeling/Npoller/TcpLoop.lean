import Mathlib.Logic.Function.Basic
import Npoller.IoWrite
import Npoller.StepSystem
import Npoller.TcpRace

/-!
One tcp instance on its event loop: `tcp::process_event`, `direct_read`,
`direct_write`, `connect`, `reconnect` and `close` of `io/tcp.cpp` with what they call
in `io/io.cpp`, `process_instant_write`, and `do_register` on any thread. The loop
thread is a stack of instructions, so that a notify callback may call `close` at any
depth; a callback that registers operations does what any thread may do at that time.
`read_buffer` is left out, as `process` may return anything, and so is the debug log
with `set_addr_and_test`. The status changes on the loop thread only.
-/

namespace Npoller.TcpLoop

open DirectIo IoBuffer IoWrite MemContainer SizeT StepSystem TcpRace TcpSetters

/-- `id` numbers the calls of `do_register`. -/
structure Op where
  id : Nat
  type : OperationType
  size : Nat
  deriving DecidableEq, Repr

inductive ResultType where
  | done
  | ioError
  | ioClose
  deriving DecidableEq, Repr

/-- A call of a virtual function of an operation. -/
inductive Entry where
  | process (op : Op)
  | notify (op : Op) (result : ResultType)
  deriving DecidableEq, Repr

structure Events where
  epollin : Bool
  epollout : Bool
  epollrdhup : Bool
  deriving DecidableEq, Repr

/-- What the loop thread has still to do. `callback` is inside a notify or connect
callback; the instructions from `processRead` to `closeStatus` below `close` are its
parts; `processRead` is `clean_read` as well. -/
inductive Instr where
  | dispatch (events : Events)
  | afterReconnect (events : Events)
  | connect
  | reconnect
  | clearHandler
  | directRead
  | checkReadable
  | set (setter : Setter)
  | writeFlush
  | writeStage (epollout : Bool)
  | directWrite
  | processWrite
  | eraseFront
  | finishEvent
  | getEvent
  | processRead
  | readLoop
  | clearTemp
  | callback
  | close
  | cleanWrite
  | dropManager
  | closeStatus
  deriving DecidableEq, Repr

/-- What the environment decides: the result of `process` on a read operation, the
buffer that `process` of a write operation leaves, how `direct_read` ends, the results
of `write(2)` and `::connect`, and whether a callback calls `close` or returns. -/
inductive Input where
  | processed (result : Bool)
  | flushed (writeBuffer : Buf)
  | read (exit : Exit)
  | wrote (results : List WriteResult)
  | connected (result : ConnectResult)
  | closes
  | returns

/-- `do_register`: past the tests of the instance, past that of the direction, and
past the push of a write operation. -/
inductive RegisterPc where
  | idle
  | checking (op : Op)
  | pushing (op : Op)
  | announcing
  deriving DecidableEq, Repr

/-- `managed` is `manager != nullptr`, `readyToWrite` the entries for this instance in
the queue of that name. The last six fields are history: the operations for which
`do_register` has pushed, all calls on operations, how the last `write(2)` ended, an
event with EPOLLOUT that found something to send and no write since, and a `close`
that has returned with no push since. -/
structure Tcp (θ : Type*) where
  fd : Int
  status : TcpStatus
  managed : Bool
  writeBusy : Bool
  connectHandler : Bool
  haveWrite : Nat
  writeBuffer : Buf
  tempReadEvent : Option Op
  readList : List Op
  writeList : List Op
  waitWriteList : List Op
  readyToWrite : Nat
  threads : θ → RegisterPc
  todo : List Instr
  nextId : Nat
  accepted : List Op
  log : List Entry
  lastWrite : Option Exit
  owesWrite : Bool
  closeReturned : Bool

variable {θ : Type*}

def Tcp.construct (fd : Int) (status : TcpStatus) (connectHandler : Bool) (mem : Mem) : Tcp θ :=
  { fd, status, managed := true, writeBusy := false, connectHandler, haveWrite := 0
    writeBuffer := ⟨mem, .fresh⟩, tempReadEvent := none, readList := [], writeList := []
    waitWriteList := [], readyToWrite := 0, threads := fun _ => .idle, todo := [], nextId := 0
    accepted := [], log := [], lastWrite := none, owesWrite := false, closeReturned := false }

def Tcp.record (s : Tcp θ) (entry : Entry) : Tcp θ := { s with log := s.log ++ [entry] }

/-- `process_event` from the first `EPOLLIN` on. -/
def eventBody (events : Events) : List Instr :=
  (if events.epollin then [.directRead, .processRead] else []) ++ .checkReadable ::
    (if events.epollrdhup then [.set (.readable false), .processRead] else []) ++
    [.writeFlush, .writeStage events.epollout, .finishEvent]

/-- The switch of `process_event`. -/
def dispatched (events : Events) : TcpStatus → List Instr
  | .invalid => []
  | .initializing | .connected => eventBody events
  | .connecting => [.reconnect, .afterReconnect events]
  | .peerShutdownWrite =>
      if events.epollin then [.processWrite, .close] else eventBody events
  | .shutdownWrite =>
      (if events.epollout then [.set (.writable false)] else []) ++ eventBody events
  | .closed => [.close]

def afterReconnect (events : Events) : TcpStatus → List Instr
  | .connecting => [.getEvent]
  | .connected => eventBody events
  | _ => []

def Tcp.handleConnectResult (s : Tcp θ) : List Instr :=
  if s.connectHandler then [.callback, .clearHandler] else []

/-- What `connect` (`first`) or `reconnect` does with the result. -/
def Tcp.connectResult (s : Tcp θ) (first : Bool) (rest : List Instr) : ConnectResult → Tcp θ
  | .succeeded | .isConnected =>
      { s with status := .connected, writeBusy := false, todo := s.handleConnectResult ++ rest }
  | .inProgress => { s with status := .connecting, todo := rest }
  | .interrupted =>
      if first then { s with todo := rest }
      else { s with todo := s.handleConnectResult ++ [.close] ++ rest }
  | .unknown =>
      if first then { s with todo := s.handleConnectResult ++ [.close] ++ rest }
      else { s with status := .closed, todo := rest }
  | .refused => { s with todo := s.handleConnectResult ++ [.close] ++ rest }

/-- The status when the loop of `io::direct_read` has ended. -/
def readEnded (status : TcpStatus) : Exit → TcpStatus
  | .eof => (Setter.readable false).apply status
  | .badFd => .invalid
  | _ => status

/-- The status when the loop of `io::direct_write` has ended. -/
def writeEnded (status : TcpStatus) : Exit → TcpStatus
  | .invalid | .brokenPipe => (Setter.writable false).apply status
  | .badFd => .invalid
  | _ => status

/-- The end of `tcp::direct_write`. A status that is not writable is not connected, so
its other branch is never taken. -/
def afterDirectWrite (status : TcpStatus) : List Instr :=
  if status = .invalid ∨ Writable status then [] else [.close]

/-- `io::direct_write` comes to a `write(2)`. -/
def Attempts (s : Tcp θ) : Prop := Writable s.status ∧ Unsent s.writeBuffer.cb

instance (s : Tcp θ) : Decidable (Attempts s) := inferInstanceAs (Decidable (_ ∧ _))

/-- One instruction of the loop thread. -/
def Tcp.run (s : Tcp θ) (rest : List Instr) : Instr → Input → Option (Tcp θ)
  | .dispatch events, _ => some { s with todo := dispatched events s.status ++ rest }
  | .afterReconnect events, _ => some { s with todo := afterReconnect events s.status ++ rest }
  | .connect, .connected result =>
      some (if s.status = .initializing then s.connectResult true rest result
        else { s with todo := rest })
  | .reconnect, .connected result =>
      some (if s.status = .connecting then s.connectResult false rest result
        else { s with todo := rest })
  | .clearHandler, _ => some { s with connectHandler := false, todo := rest }
  | .directRead, .read exit =>
      let status := if Readable s.status then readEnded s.status exit else s.status
      some { s with status, todo := (if status = .closed then [.close] else []) ++ rest }
  | .checkReadable, _ =>
      some { s with todo := (if Readable s.status then [] else [.processRead]) ++ rest }
  | .set setter, _ => some { s with status := setter.apply s.status, todo := rest }
  -- `process` on a write operation may leave anything in `write_buffer`.
  | .writeFlush, .flushed writeBuffer =>
      match s.writeList with
      | [] => some { s with todo := rest }
      | op :: ops =>
          some { s.record (.process op) with
            writeList := ops
            writeBuffer
            waitWriteList := s.waitWriteList ++ [op]
            todo := .writeFlush :: rest }
  -- The branch for EPOLLOUT only logs; whether to write is asked of `write_busy`.
  | .writeStage epollout, _ =>
      some { s with
        owesWrite := s.owesWrite || epollout && decide (Attempts s)
        todo := (if s.writeBusy then [] else [.directWrite, .processWrite]) ++ rest }
  | .directWrite, .wrote results =>
      if Writable s.status then
        match drainBuffer results s.writeBuffer with
        | .ok done => some { s with
            writeBuffer := done.buf
            haveWrite := wadd s.haveWrite done.writeSum
            writeBusy := s.writeBusy || done.exit = .again
            status := writeEnded s.status done.exit
            lastWrite := if Unsent s.writeBuffer.cb then some done.exit else s.lastWrite
            owesWrite := s.owesWrite && !decide (Unsent s.writeBuffer.cb)
            todo := afterDirectWrite (writeEnded s.status done.exit) ++ rest }
        | .error _ => none
      else some { s with todo := afterDirectWrite s.status ++ rest }
  | .processWrite, _ =>
      match s.waitWriteList with
      | [] => some { s with todo := rest }
      | op :: _ =>
          if op.size ≤ s.haveWrite then
            some { s.record (.notify op .done) with
              haveWrite := s.haveWrite - op.size
              todo := .callback :: .eraseFront :: .processWrite :: rest }
          else some { s with todo := rest }
  -- `process_write` erases the front after its callback.
  | .eraseFront, _ => some { s with waitWriteList := s.waitWriteList.tail, todo := rest }
  | .finishEvent, _ =>
      some { s with todo := (if s.status = .closed ∨ s.status = .peerShutdownWrite then [.close]
        else [.getEvent]) ++ rest }
  | .getEvent, _ => some { s with todo := (if s.status = .closed then [.close] else []) ++ rest }
  | .processRead, .processed result =>
      match s.tempReadEvent with
      | none => some { s with todo := .readLoop :: rest }
      | some op =>
          if result then
            some { (s.record (.process op)).record (.notify op .done) with
              todo := .callback :: .clearTemp :: .readLoop :: rest }
          else some { s.record (.process op) with todo := rest }
  -- `try_pop` has taken the operation out before `process` sees it.
  | .readLoop, .processed result =>
      match s.readList with
      | [] => some { s with todo := rest }
      | op :: ops =>
          if result then
            some { (s.record (.process op)).record (.notify op .done) with
              readList := ops, todo := .callback :: .readLoop :: rest }
          else some { s.record (.process op) with
            readList := ops, tempReadEvent := some op, todo := rest }
  -- `temp_read_event` is cleared when the callback has returned.
  | .clearTemp, _ => some { s with tempReadEvent := none, todo := rest }
  | .callback, .returns => some { s with todo := rest }
  -- The callback goes on after the close.
  | .callback, .closes => some { s with todo := .close :: .callback :: rest }
  | .close, _ =>
      some { s with todo := .processRead :: .cleanWrite :: .dropManager :: .closeStatus :: rest }
  | .cleanWrite, _ =>
      match s.writeList with
      | [] => some { s with todo := rest }
      | op :: ops =>
          some { s.record (.notify op .ioError) with
            writeList := ops, todo := .callback :: .cleanWrite :: rest }
  | .dropManager, _ => some { s with managed := false, todo := rest }
  | .closeStatus, _ =>
      some { s with
        status := if Final s.status then s.status else .closed
        closeReturned := true
        todo := rest }
  | _, _ => none

def loopMove (s : Tcp θ) (input : Input) : Option (Tcp θ) :=
  match s.todo with
  | [] => none
  | instr :: rest => s.run rest instr input

/-- What the loop thread is called for when it has nothing to do. -/
inductive Call where
  | event (events : Events)
  | instantWrite
  | connect
  | close

/-- An event reaches the instance through the map of its manager, an instant write
through the queue. -/
def callMove (s : Tcp θ) : Call → Option (Tcp θ)
  | .event events =>
      if s.todo = [] ∧ s.managed then some { s with todo := [.dispatch events] } else none
  | .instantWrite =>
      if s.todo = [] ∧ s.readyToWrite ≠ 0 then
        some { s with
          readyToWrite := s.readyToWrite - 1
          todo := [.writeFlush, .directWrite, .processWrite, .getEvent] }
      else none
  | .connect => if s.todo = [] then some { s with todo := [.connect] } else none
  | .close => if s.todo = [] then some { s with todo := [.close] } else none

section Registration
variable [DecidableEq θ]

def Tcp.setThread (s : Tcp θ) (t : θ) (pc : RegisterPc) : Tcp θ :=
  { s with threads := Function.update s.threads t pc }

/-- `do_register` up to the test of `io_id`; a call that returns false does nothing. -/
def registerMove (s : Tcp θ) (t : θ) (type : OperationType) (ioId : Int) (size : Nat) :
    Option (Tcp θ) :=
  if s.threads t = .idle ∧ s.status ≠ .invalid ∧ s.managed ∧ (ioId = unspecifiedId ∨ ioId = s.fd) then
    some ({ s with nextId := s.nextId + 1 }.setThread t (.checking ⟨s.nextId, type, size⟩))
  else none

def advance (s : Tcp θ) (t : θ) : Option (Tcp θ) :=
  match s.threads t with
  | .idle => none
  | .checking op =>
      match op.type with
      | .read => some (s.setThread t (if Readable s.status then .pushing op else .idle))
      | .write => some (s.setThread t (if Writable s.status then .pushing op else .idle))
  | .pushing op =>
      let s := { s with accepted := s.accepted ++ [op], closeReturned := false }
      match op.type with
      | .read => some ({ s with readList := s.readList ++ [op] }.setThread t .idle)
      | .write => some ({ s with writeList := s.writeList ++ [op] }.setThread t .announcing)
  -- The instant task is added where the connection does not look busy.
  | .announcing =>
      let count := if s.writeBusy = false ∧ s.managed then 1 else 0
      some ({ s with readyToWrite := s.readyToWrite + count }.setThread t .idle)

inductive Move (θ : Type*) where
  | call (call : Call)
  | loop (input : Input)
  | register (t : θ) (type : OperationType) (ioId : Int) (size : Nat)
  | advance (t : θ)

def Move.run (s : Tcp θ) : Move θ → Option (Tcp θ)
  | .call made => callMove s made
  | .loop input => loopMove s input
  | .register t type ioId size => registerMove s t type ioId size
  | .advance t => TcpLoop.advance s t

def tcpLoop (θ : Type*) [DecidableEq θ] : System (Tcp θ) (Move θ) where
  init s := ∃ fd status connectHandler mem, s = .construct fd status connectHandler mem
  step before move after := move.run before = some after

@[simp] theorem set_thread_self (s : Tcp θ) (t : θ) (pc : RegisterPc) :
    (s.setThread t pc).threads t = pc := Function.update_self ..

theorem set_thread_other (s : Tcp θ) {t u : θ} (pc : RegisterPc) (other : u ≠ t) :
    (s.setThread t pc).threads u = s.threads u := Function.update_of_ne other ..

end Registration

/-- The instructions of the programs that the loop thread starts with; below them no
`close` is unfinished. -/
def Instr.Base : Instr → Prop
  | .processRead | .readLoop | .clearTemp | .callback | .close | .cleanWrite | .dropManager
  | .closeStatus => False
  | _ => True

def Instr.Plain : Instr → Prop
  | .processRead | .readLoop | .clearTemp | .eraseFront | .close | .cleanWrite | .closeStatus =>
      False
  | _ => True

def Instr.Fresh : Instr → Prop
  | .closeStatus | .clearTemp | .eraseFront => False
  | _ => True

section Steps
variable {s after : Tcp θ} {rest : List Instr} {input : Input}

inductive LoopStep (s : Tcp θ) : Input → Tcp θ → Prop where
  | goes {input : Input} {instr : Instr} {next rest : List Instr} {status : TcpStatus}
      {managed connectHandler : Bool} (at_ : s.todo = instr :: rest) (plain : instr.Plain)
      (fresh : ∀ pushed ∈ next, pushed.Fresh) (base : ∀ pushed ∈ next, pushed.Base → instr.Base)
      (unwritable : instr = .directWrite → ¬Writable s.status) :
      LoopStep s input { s with status, managed, connectHandler, todo := next ++ rest }
  | connected {input : Input} {instr : Instr} {rest : List Instr} (at_ : s.todo = instr :: rest)
      (connects : instr = .connect ∨ instr = .reconnect) :
      LoopStep s input { s with
        status := .connected, writeBusy := false, todo := s.handleConnectResult ++ rest }
  | flushed {writeBuffer : Buf} {op : Op} {ops : List Op} {rest : List Instr}
      (at_ : s.todo = .writeFlush :: rest) (listed : s.writeList = op :: ops) :
      LoopStep s (.flushed writeBuffer) { s.record (.process op) with
        writeList := ops
        writeBuffer
        waitWriteList := s.waitWriteList ++ [op]
        todo := .writeFlush :: rest }
  | staged {input : Input} {epollout : Bool} {rest : List Instr}
      (at_ : s.todo = .writeStage epollout :: rest) :
      LoopStep s input { s with
        owesWrite := s.owesWrite || epollout && decide (Attempts s)
        todo := (if s.writeBusy then [] else [.directWrite, .processWrite]) ++ rest }
  | wrote {results : List WriteResult} {done : Drained} {rest : List Instr}
      (at_ : s.todo = .directWrite :: rest) (writable : Writable s.status)
      (drains : drainBuffer results s.writeBuffer = .ok done) :
      LoopStep s (.wrote results) { s with
        writeBuffer := done.buf
        haveWrite := wadd s.haveWrite done.writeSum
        writeBusy := s.writeBusy || done.exit = .again
        status := writeEnded s.status done.exit
        lastWrite := if Unsent s.writeBuffer.cb then some done.exit else s.lastWrite
        owesWrite := s.owesWrite && !decide (Unsent s.writeBuffer.cb)
        todo := afterDirectWrite (writeEnded s.status done.exit) ++ rest }
  | completed {input : Input} {op : Op} {ops : List Op} {rest : List Instr}
      (at_ : s.todo = .processWrite :: rest) (listed : s.waitWriteList = op :: ops) :
      LoopStep s input { s.record (.notify op .done) with
        haveWrite := s.haveWrite - op.size
        todo := .callback :: .eraseFront :: .processWrite :: rest }
  | erased {input : Input} {rest : List Instr} (at_ : s.todo = .eraseFront :: rest) :
      LoopStep s input { s with waitWriteList := s.waitWriteList.tail, todo := rest }
  | unparked {result : Bool} {rest : List Instr} (at_ : s.todo = .processRead :: rest)
      (none_ : s.tempReadEvent = none) :
      LoopStep s (.processed result) { s with todo := .readLoop :: rest }
  | doneParked {op : Op} {rest : List Instr} (at_ : s.todo = .processRead :: rest)
      (parked : s.tempReadEvent = some op) :
      LoopStep s (.processed true) { (s.record (.process op)).record (.notify op .done) with
        todo := .callback :: .clearTemp :: .readLoop :: rest }
  | leftParked {op : Op} {rest : List Instr} (at_ : s.todo = .processRead :: rest)
      (parked : s.tempReadEvent = some op) :
      LoopStep s (.processed false) { s.record (.process op) with todo := rest }
  | readAll {result : Bool} {rest : List Instr} (at_ : s.todo = .readLoop :: rest)
      (none_ : s.readList = []) : LoopStep s (.processed result) { s with todo := rest }
  | doneRead {op : Op} {ops : List Op} {rest : List Instr} (at_ : s.todo = .readLoop :: rest)
      (listed : s.readList = op :: ops) :
      LoopStep s (.processed true) { (s.record (.process op)).record (.notify op .done) with
        readList := ops, todo := .callback :: .readLoop :: rest }
  | parks {op : Op} {ops : List Op} {rest : List Instr} (at_ : s.todo = .readLoop :: rest)
      (listed : s.readList = op :: ops) :
      LoopStep s (.processed false) { s.record (.process op) with
        readList := ops, tempReadEvent := some op, todo := rest }
  | cleared {input : Input} {rest : List Instr} (at_ : s.todo = .clearTemp :: rest) :
      LoopStep s input { s with tempReadEvent := none, todo := rest }
  | closes {input : Input} {rest : List Instr} (at_ : s.todo = .close :: rest) :
      LoopStep s input { s with
        todo := .processRead :: .cleanWrite :: .dropManager :: .closeStatus :: rest }
  | cleaned {input : Input} {rest : List Instr} (at_ : s.todo = .cleanWrite :: rest)
      (none_ : s.writeList = []) : LoopStep s input { s with todo := rest }
  | failed {input : Input} {op : Op} {ops : List Op} {rest : List Instr}
      (at_ : s.todo = .cleanWrite :: rest) (listed : s.writeList = op :: ops) :
      LoopStep s input { s.record (.notify op .ioError) with
        writeList := ops, todo := .callback :: .cleanWrite :: rest }
  | returned {input : Input} {rest : List Instr} (at_ : s.todo = .closeStatus :: rest) :
      LoopStep s input { s with
        status := if Final s.status then s.status else .closed
        closeReturned := true
        todo := rest }

theorem event_body_fresh (events : Events) : ∀ pushed ∈ eventBody events, pushed.Fresh := by
  rcases events with ⟨epollin, epollout, epollrdhup⟩
  cases epollin <;> cases epollrdhup <;> simp [eventBody, Instr.Fresh]

theorem handler_fresh (s : Tcp θ) : ∀ pushed ∈ s.handleConnectResult, pushed.Fresh := by
  unfold Tcp.handleConnectResult
  split <;> simp [Instr.Fresh]

theorem write_stage_fresh (writeBusy : Bool) :
    ∀ pushed ∈ (if writeBusy then [] else [Instr.directWrite, .processWrite]), pushed.Fresh := by
  cases writeBusy <;> simp [Instr.Fresh]

theorem after_direct_write_fresh (status : TcpStatus) :
    ∀ pushed ∈ afterDirectWrite status, pushed.Fresh := by
  unfold afterDirectWrite
  split <;> simp [Instr.Fresh]

theorem connects_plain {instr : Instr} (connects : instr = .connect ∨ instr = .reconnect) :
    instr.Plain ∧ instr.Base := by
  rcases connects with rfl | rfl <;> exact ⟨trivial, trivial⟩

theorem dispatched_fresh (events : Events) (status : TcpStatus) :
    ∀ pushed ∈ dispatched events status, pushed.Fresh := by
  have body := event_body_fresh events
  cases status with
  | initializing | connected => exact body
  | peerShutdownWrite =>
      simp only [dispatched]
      split
      · simp [Instr.Fresh]
      · exact body
  | shutdownWrite =>
      intro pushed member
      rcases List.mem_append.mp member with first | later
      · split at first
        · rw [List.mem_singleton.mp first]
          trivial
        · cases first
      · exact body pushed later
  | connecting | closed | invalid => simp [dispatched, Instr.Fresh]

theorem after_reconnect_fresh (events : Events) (status : TcpStatus) :
    ∀ pushed ∈ afterReconnect events status, pushed.Fresh := by
  cases status with
  | connected => exact event_body_fresh events
  | connecting => simp [afterReconnect, Instr.Fresh]
  | initializing | peerShutdownWrite | shutdownWrite | closed | invalid => simp [afterReconnect]

theorem goes_on {instr : Instr} (at_ : s.todo = instr :: rest) (next : List Instr)
    (plain : instr.Plain) (fresh : ∀ pushed ∈ next, pushed.Fresh) (base : instr.Base)
    (unwritable : instr = .directWrite → ¬Writable s.status) :
    LoopStep s input { s with todo := next ++ rest } :=
  .goes at_ plain fresh (fun _ _ _ => base) unwritable

theorem pops {instr : Instr} (at_ : s.todo = instr :: rest) (plain : instr.Plain)
    (unwritable : instr = .directWrite → ¬Writable s.status) :
    LoopStep s input { s with todo := rest } :=
  .goes at_ plain (List.forall_mem_nil _) (List.forall_mem_nil _) unwritable

theorem closing_fresh {p : Prop} [Decidable p] :
    ∀ pushed ∈ (if p then [Instr.close] else []), pushed.Fresh := by
  split <;> simp [Instr.Fresh]

theorem connect_result_steps {first : Bool} {instr : Instr} {result : ConnectResult}
    (at_ : s.todo = instr :: rest) (connects : instr = .connect ∨ instr = .reconnect) :
    LoopStep s input (s.connectResult first rest result) := by
  obtain ⟨plain, base⟩ := connects_plain connects
  have away : instr = .directWrite → ¬Writable s.status := by
    rintro rfl
    rcases connects with other | other <;> cases other
  have fails : LoopStep s input { s with todo := s.handleConnectResult ++ [.close] ++ rest } := by
    refine goes_on at_ _ plain ?_ base away
    intro pushed member
    rcases List.mem_append.mp member with handler | last
    · exact handler_fresh s pushed handler
    · rw [List.mem_singleton.mp last]
      trivial
  have moves (status : TcpStatus) : LoopStep s input { s with status, todo := rest } :=
    .goes at_ plain (List.forall_mem_nil _) (List.forall_mem_nil _) away
  cases result with
  | succeeded | isConnected => exact .connected at_ connects
  | inProgress => exact moves .connecting
  | interrupted =>
      cases first with
      | true => exact pops at_ plain away
      | false => exact fails
  | unknown =>
      cases first with
      | true => exact fails
      | false => exact moves .closed
  | refused => exact fails

theorem run_steps {instr : Instr} (at_ : s.todo = instr :: rest)
    (moves : s.run rest instr input = some after) : LoopStep s input after := by
  cases instr with
  | dispatch events =>
      cases moves
      exact goes_on at_ _ trivial (dispatched_fresh events s.status) trivial nofun
  | afterReconnect events =>
      cases moves
      exact goes_on at_ _ trivial (after_reconnect_fresh events s.status) trivial nofun
  | connect =>
      cases input with
      | connected result =>
          cases moves
          split
          · exact connect_result_steps at_ (.inl rfl)
          · exact pops at_ trivial nofun
      | processed _ | flushed _ | read _ | wrote _ | closes | returns => cases moves
  | reconnect =>
      cases input with
      | connected result =>
          cases moves
          split
          · exact connect_result_steps at_ (.inr rfl)
          · exact pops at_ trivial nofun
      | processed _ | flushed _ | read _ | wrote _ | closes | returns => cases moves
  | clearHandler =>
      cases moves
      exact .goes at_ trivial (List.forall_mem_nil _) (List.forall_mem_nil _) nofun
  | directRead =>
      cases input with
      | read exit =>
          cases moves
          exact .goes at_ trivial closing_fresh (fun _ _ _ => trivial) nofun
      | processed _ | flushed _ | connected _ | wrote _ | closes | returns => cases moves
  | checkReadable =>
      cases moves
      refine goes_on at_ _ trivial ?_ trivial nofun
      split <;> simp [Instr.Fresh]
  | set setter =>
      cases moves
      exact .goes at_ trivial (List.forall_mem_nil _) (List.forall_mem_nil _) nofun
  | writeFlush =>
      cases input with
      | flushed writeBuffer =>
          simp only [Tcp.run] at moves
          split at moves
          · cases moves
            exact pops at_ trivial nofun
          · rename_i listed
            cases moves
            exact .flushed at_ listed
      | processed _ | read _ | connected _ | wrote _ | closes | returns => cases moves
  | writeStage epollout =>
      cases moves
      exact .staged at_
  | directWrite =>
      cases input with
      | wrote results =>
          simp only [Tcp.run] at moves
          split at moves
          · rename_i writable
            split at moves
            · rename_i drains
              cases moves
              exact .wrote at_ writable drains
            · cases moves
          · rename_i unwritable
            cases moves
            refine goes_on at_ _ trivial ?_ trivial (fun _ => unwritable)
            unfold afterDirectWrite
            split <;> simp [Instr.Fresh]
      | processed _ | flushed _ | read _ | connected _ | closes | returns => cases moves
  | processWrite =>
      simp only [Tcp.run] at moves
      split at moves
      · cases moves
        exact pops at_ trivial nofun
      · rename_i listed
        split at moves
        · cases moves
          exact .completed at_ listed
        · cases moves
          exact pops at_ trivial nofun
  | eraseFront =>
      cases moves
      exact .erased at_
  | finishEvent =>
      cases moves
      refine goes_on at_ _ trivial ?_ trivial nofun
      split <;> simp [Instr.Fresh]
  | getEvent =>
      cases moves
      exact goes_on at_ _ trivial closing_fresh trivial nofun
  | processRead =>
      cases input with
      | processed result =>
          simp only [Tcp.run] at moves
          split at moves
          · rename_i none_
            cases moves
            exact .unparked at_ none_
          · rename_i parked
            cases result with
            | true =>
                cases moves
                exact .doneParked at_ parked
            | false =>
                cases moves
                exact .leftParked at_ parked
      | flushed _ | read _ | connected _ | wrote _ | closes | returns => cases moves
  | readLoop =>
      cases input with
      | processed result =>
          simp only [Tcp.run] at moves
          split at moves
          · rename_i none_
            cases moves
            exact .readAll at_ none_
          · rename_i listed
            cases result with
            | true =>
                cases moves
                exact .doneRead at_ listed
            | false =>
                cases moves
                exact .parks at_ listed
      | flushed _ | read _ | connected _ | wrote _ | closes | returns => cases moves
  | clearTemp =>
      cases moves
      exact .cleared at_
  | callback =>
      cases input with
      | closes =>
          cases moves
          have step : LoopStep s .closes { s with todo := [.close, .callback] ++ rest } := by
            apply LoopStep.goes at_ trivial
            · simp [Instr.Fresh]
            · simp [Instr.Base]
            · nofun
          exact step
      | returns =>
          cases moves
          exact pops at_ trivial nofun
      | processed _ | flushed _ | read _ | connected _ | wrote _ => cases moves
  | close =>
      cases moves
      exact .closes at_
  | cleanWrite =>
      simp only [Tcp.run] at moves
      split at moves
      · rename_i none_
        cases moves
        exact .cleaned at_ none_
      · rename_i listed
        cases moves
        exact .failed at_ listed
  | dropManager =>
      cases moves
      exact .goes at_ trivial (List.forall_mem_nil _) (List.forall_mem_nil _) nofun
  | closeStatus =>
      cases moves
      exact .returned at_

theorem loop_run (at_ : s.todo = instr :: rest) : loopMove s input = s.run rest instr input := by
  rw [loopMove, at_]

theorem loop_at (moves : loopMove s input = some after) :
    ∃ instr rest, s.todo = instr :: rest ∧ s.run rest instr input = some after := by
  cases at_ : s.todo with
  | nil =>
      rw [loopMove, at_] at moves
      cases moves
  | cons instr rest => exact ⟨instr, rest, rfl, (loop_run at_).symm.trans moves⟩

theorem loop_steps (moves : loopMove s input = some after) : LoopStep s input after := by
  obtain ⟨_, _, at_, ran⟩ := loop_at moves
  exact run_steps at_ ran

theorem call_steps {made : Call} (moves : callMove s made = some after) :
    s.todo = [] ∧ ∃ readyToWrite next, (∀ pushed ∈ next, pushed.Fresh) ∧
      after = { s with readyToWrite, todo := next } := by
  cases made with
  | event events =>
      simp only [callMove] at moves
      split at moves
      · rename_i guard
        cases moves
        exact ⟨guard.1, _, _, by simp [Instr.Fresh], rfl⟩
      · cases moves
  | instantWrite =>
      simp only [callMove] at moves
      split at moves
      · rename_i guard
        cases moves
        exact ⟨guard.1, _, _, by simp [Instr.Fresh], rfl⟩
      · cases moves
  | connect | close =>
      simp only [callMove] at moves
      split at moves
      · rename_i idle
        cases moves
        exact ⟨idle, _, _, by simp [Instr.Fresh], rfl⟩
      · cases moves

section Threads
variable [DecidableEq θ] {t : θ}

inductive RegisterStep (s : Tcp θ) (t : θ) : Tcp θ → Prop where
  | begun (type : OperationType) (size : Nat) (pc : s.threads t = .idle) :
      RegisterStep s t
        ({ s with nextId := s.nextId + 1 }.setThread t (.checking ⟨s.nextId, type, size⟩))
  | refused {op : Op} (pc : s.threads t = .checking op) : RegisterStep s t (s.setThread t .idle)
  | passed {op : Op} (pc : s.threads t = .checking op) :
      RegisterStep s t (s.setThread t (.pushing op))
  | pushedRead {op : Op} (pc : s.threads t = .pushing op) (type : op.type = .read) :
      RegisterStep s t ({ s with
        accepted := s.accepted ++ [op]
        closeReturned := false
        readList := s.readList ++ [op] }.setThread t .idle)
  | pushedWrite {op : Op} (pc : s.threads t = .pushing op) (type : op.type = .write) :
      RegisterStep s t ({ s with
        accepted := s.accepted ++ [op]
        closeReturned := false
        writeList := s.writeList ++ [op] }.setThread t .announcing)
  | announced {readyToWrite : Nat} (pc : s.threads t = .announcing) :
      RegisterStep s t ({ s with readyToWrite }.setThread t .idle)

theorem advance_steps (moves : TcpLoop.advance s t = some after) : RegisterStep s t after := by
  unfold TcpLoop.advance at moves
  split at moves
  · cases moves
  · rename_i pc
    split at moves
    · cases moves
      split
      · exact .passed pc
      · exact .refused pc
    · cases moves
      split
      · exact .passed pc
      · exact .refused pc
  · rename_i pc
    split at moves
    · rename_i type
      cases moves
      exact .pushedRead pc type
    · rename_i type
      cases moves
      exact .pushedWrite pc type
  · rename_i pc
    cases moves
    exact .announced pc

theorem register_idle {type : OperationType} {ioId : Int} {size : Nat}
    (moves : registerMove s t type ioId size = some after) : s.threads t = .idle := by
  unfold registerMove at moves
  split at moves
  · rename_i guard
    exact guard.1
  · cases moves

theorem register_steps {type : OperationType} {ioId : Int} {size : Nat}
    (moves : registerMove s t type ioId size = some after) : RegisterStep s t after := by
  unfold registerMove at moves
  split at moves
  · rename_i guard
    cases moves
    exact .begun type size guard.1
  · cases moves

def afterMoves (allowed : Tcp θ → Move θ → Prop) [∀ s move, Decidable (allowed s move)]
    (status : TcpStatus) (mem : Mem) (moves : List (Move θ)) : Option (Tcp θ) :=
  moves.foldlM (fun s move => if allowed s move then move.run s else none)
    (.construct 3 status false mem)

theorem moves_reachable {allowed : Tcp θ → Move θ → Prop} [∀ s move, Decidable (allowed s move)]
    {status : TcpStatus} {mem : Mem} {moves : List (Move θ)}
    (ran : (afterMoves allowed status mem moves).isSome) :
    ReachableBy (tcpLoop θ) allowed ((afterMoves allowed status mem moves).get ran) := by
  have begins : (tcpLoop θ).init (.construct 3 status false mem) := ⟨3, status, false, mem, rfl⟩
  exact guarded_reachable (fun _ _ _ moved => moved) (.start begins) (Option.some_get ran).symm

end Threads

end Steps

end Npoller.TcpLoop
