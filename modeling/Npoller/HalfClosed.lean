import Npoller.DirectIoSpec
import Npoller.TcpChanges

/-!
A tcp whose write side is shut down, with its read buffer, under the events of its
manager. `direct_read` fills the buffer; `process` and the callbacks of operations may
leave anything in it. A `direct_write` on a status that is not writable closes the
instance, so it survives an event only while `write_busy` keeps the event from it.
-/

namespace Npoller.HalfClosed

open DirectIo DirectIoSpec IoBuffer IoBufferSpec IoWrite MemContainer Outcome StepSystem
  TcpChanges TcpLoop TcpSetters TransferRules

structure ReadBuffer where
  buf : Buf
  rest : List BlockId
  rep : Rep buf.cb
  owns : Owns 0 buf.mem (buf.cb.buffer ++ rest)

structure Filling where
  readBuffer : ReadBuffer
  delivered : List Byte
  exit : Exit

/-- `io::direct_read`, which may run out of memory. -/
def ReadBuffer.fill (results : List ReadResult) (s : ReadBuffer) : Option Filling :=
  match filled : fillBuffer results s.buf with
  | .ok done =>
      have served := ends_value (fill_buffer_serves results s.rep s.owns) filled
      some ⟨⟨done.buf, s.rest, served.rep, served.owns⟩, done.delivered, done.exit⟩
  | .error _ => none

structure ReadCall where
  before : List Byte
  delivered : List Byte
  after : List Byte

/-- `returned` has the results of the calls of `process_event`. -/
structure Reader (θ : Type*) where
  tcp : Tcp θ
  readBuffer : ReadBuffer
  reads : List ReadCall
  returned : List Bool

inductive Move (θ : Type*) where
  | event (events : Events)
  | read (results : List ReadResult)
  | loop (input : Input) (readBuffer : ReadBuffer)
  | register (t : θ) (type : OperationType) (ioId : Int) (size : Nat)
  | advance (t : θ)

variable {θ : Type*}

/-- `process_event` returns when nothing is left to do: true if `get_event` was the last
instruction, on an open status. -/
def Reader.goTo (s : Reader θ) (tcp : Tcp θ) : Reader θ :=
  { s with
    tcp
    returned := if s.tcp.todo ≠ [] ∧ tcp.todo = [] then
        s.returned ++ [decide (s.tcp.todo = [.getEvent] ∧ ¬Final tcp.status)]
      else s.returned }

def Reader.filled (s : Reader θ) (done : Filling) : Reader θ :=
  { s with
    readBuffer := done.readBuffer
    reads := s.reads ++ [⟨content s.readBuffer.buf, done.delivered, content done.readBuffer.buf⟩] }

section Runs
variable [DecidableEq θ]

def run (s : Reader θ) : Move θ → Option (Reader θ)
  | .event events => (callMove s.tcp (.event events)).map s.goTo
  | .read results =>
      if s.tcp.todo.head? ≠ some .directRead then none
      else if Readable s.tcp.status then
        (s.readBuffer.fill results).bind fun done =>
          (loopMove s.tcp (.read done.exit)).map (s.filled done).goTo
      else (loopMove s.tcp (.read .again)).map s.goTo
  | .loop input readBuffer =>
      if s.tcp.todo.head? = some .directRead then none
      else (loopMove s.tcp input).map { s with readBuffer }.goTo
  | .register t type ioId size => (registerMove s.tcp t type ioId size).map s.goTo
  | .advance t => (TcpLoop.advance s.tcp t).map s.goTo

def eventsFrom (start : Reader θ) : System (Reader θ) (Move θ) where
  init s := s = start
  step before move after := run before move = some after

end Runs

/-- `read(2)` reports no end of file and no error. -/
def Quiet : ReadResult → Prop
  | .bytes _ _ | .failed .eagain | .failed .eintr => True
  | _ => False

/-- No event carries EPOLLRDHUP, and nobody calls `close`. -/
def Undisturbed (_ : Reader θ) : Move θ → Prop
  | .event events => events.epollrdhup = false
  | .read results => ∀ result ∈ results, Quiet result
  | .loop .closes _ => False
  | .loop _ _ | .register _ _ _ _ | .advance _ => True

structure HalfOpen (s : Reader θ) : Prop where
  status : s.tcp.status = .shutdownWrite
  managed : s.tcp.managed = true
  idle : s.tcp.todo = []
  reads : s.reads = []
  returned : s.returned = []

/-- Never closed, each `process_event` true, and all bytes read in the read buffer. -/
structure Survives (s : Reader θ) : Prop where
  open_ : ¬Final s.tcp.status
  returned : ∀ result ∈ s.returned, result = true
  reads : ∀ call ∈ s.reads, call.after = call.before ++ call.delivered

variable {s after : Reader θ} {tcp : Tcp θ}

section Reads

theorem fill_appends {results : List ReadResult} {readBuffer : ReadBuffer} {done : Filling}
    (filled : readBuffer.fill results = some done) :
    content done.readBuffer.buf = content readBuffer.buf ++ done.delivered := by
  unfold ReadBuffer.fill at filled
  split at filled
  · rename_i returned
    cases filled
    exact (ends_value (fill_buffer_serves results readBuffer.rep readBuffer.owns) returned).holds
  · cases filled

theorem read_loop_quiet {results : List ReadResult} (quiet : ∀ result ∈ results, Quiet result)
    (retryTimes : Nat) (buf : Buf) : Ends (fun _ => True) (directReadLoop results retryTimes buf)
      (fun done => done.exit = .again ∨ done.exit = .interrupted) := by
  have found (buf : Buf) : Ends (fun _ => True) (readTarget buf) (fun _ => True) := by
    cases readTarget buf with
    | ok _ => trivial
    | error _ => trivial
  induction results generalizing retryTimes buf with
  | nil => exact ends_bind (found buf) (fun _ _ => .inl rfl)
  | cons result rest ih =>
      obtain ⟨first, others⟩ := List.forall_mem_cons.mp quiet
      cases result with
      | bytes byte more =>
          apply ends_bind (found buf)
          exact fun _ _ => ends_bind (ih others retryTimes _) (fun _ ended => ended)
      | eof => cases first
      | failed errno =>
          apply ends_bind (found buf)
          intro target _
          split
          · exact ih others _ _
          · cases errno with
            | eagain => exact .inl rfl
            | eintr => exact .inr rfl
            | einval | ebadf | epipe | other => cases first

theorem fill_buffer_quiet {results : List ReadResult} (quiet : ∀ result ∈ results, Quiet result)
    (buf : Buf) : Ends (fun _ => True) (fillBuffer results buf)
      (fun done => done.exit = .again ∨ done.exit = .interrupted) :=
  ends_bind (read_loop_quiet quiet 0 buf) (fun _ ended => ended)

theorem fill_quiet {results : List ReadResult} {readBuffer : ReadBuffer} {done : Filling}
    (quiet : ∀ result ∈ results, Quiet result) (filled : readBuffer.fill results = some done) :
    done.exit = .again ∨ done.exit = .interrupted := by
  unfold ReadBuffer.fill at filled
  split at filled
  · rename_i returned
    cases filled
    have ended := ends_value (fill_buffer_quiet quiet readBuffer.buf) returned
    exact ended
  · cases filled

end Reads

section Busy

/-- What the loop thread may have to do in an event that does not close a busy instance. -/
def Instr.Keeps : Instr → Prop
  | .dispatch events => events.epollrdhup = false
  | .directRead | .processRead | .readLoop | .clearTemp | .callback | .checkReadable
  | .set (.writable false) | .writeFlush | .writeStage _ | .finishEvent | .getEvent => True
  | _ => False

theorem body_keeps {events : Events} (plain : events.epollrdhup = false) :
    ∀ pushed ∈ eventBody events, Instr.Keeps pushed := by
  unfold eventBody
  rw [plain]
  split <;> simp [Instr.Keeps]

theorem dispatched_keeps {events : Events} (plain : events.epollrdhup = false) :
    ∀ pushed ∈ dispatched events .shutdownWrite, Instr.Keeps pushed := by
  intro pushed member
  rcases List.mem_append.mp member with first | later
  · split at first
    · rw [List.mem_singleton.mp first]
      trivial
    · cases first
  · exact body_keeps plain pushed later

structure StaysBusy (tcp : Tcp θ) (rest : List Instr) : Prop where
  status : tcp.status = .shutdownWrite
  writeBusy : tcp.writeBusy = true
  pushes : ∃ next, tcp.todo = next ++ rest ∧ ∀ pushed ∈ next, Instr.Keeps pushed

theorem busy_step {old : Tcp θ} {rest : List Instr} {instr : Instr} {input : Input}
    (status : old.status = .shutdownWrite) (busy : old.writeBusy = true) (keeps : Instr.Keeps instr)
    (quiet : ∀ exit, instr = .directRead → input = .read exit → exit = .again ∨ exit = .interrupted)
    (unclosed : input ≠ .closes)
    (moved : old.run rest instr input = some tcp) : StaysBusy tcp rest := by
  have readable : Readable old.status := .inr status
  cases instr with
  | dispatch events =>
      cases moved
      exact ⟨status, busy, _, rfl, status ▸ dispatched_keeps keeps⟩
  | directRead =>
      cases input with
      | read exit =>
          cases moved
          have ended : readEnded old.status exit = .shutdownWrite := by
            rcases quiet exit rfl rfl with rfl | rfl <;> exact status
          rw [if_pos readable, ended]
          exact ⟨rfl, busy, [], rfl, nofun⟩
      | processed _ | flushed _ | connected _ | wrote _ | closes | returns => cases moved
  | checkReadable =>
      cases moved
      rw [if_pos readable]
      exact ⟨status, busy, [], rfl, nofun⟩
  | set setter =>
      cases moved
      have kept : setter.apply old.status = .shutdownWrite := by
        rw [status]
        rcases setter with flag | flag
        · cases keeps
        · cases flag with
          | false => rfl
          | true => cases keeps
      exact ⟨kept, busy, [], rfl, nofun⟩
  | writeFlush =>
      cases input with
      | flushed writeBuffer =>
          simp only [Tcp.run] at moved
          split at moved
          · cases moved
            exact ⟨status, busy, [], rfl, nofun⟩
          · cases moved
            exact ⟨status, busy, [.writeFlush], rfl, by simp [Instr.Keeps]⟩
      | processed _ | read _ | connected _ | wrote _ | closes | returns => cases moved
  -- The one test that keeps the instance from `direct_write`, which would close it.
  | writeStage epollout =>
      cases moved
      rw [busy]
      exact ⟨status, rfl, [], rfl, nofun⟩
  -- Neither closed nor shut down by the peer, so only `get_event` is left.
  | finishEvent =>
      cases moved
      rw [status]
      exact ⟨rfl, busy, [.getEvent], rfl, by simp [Instr.Keeps]⟩
  | getEvent =>
      cases moved
      rw [status]
      exact ⟨rfl, busy, [], rfl, nofun⟩
  | processRead =>
      cases input with
      | processed result =>
          simp only [Tcp.run] at moved
          split at moved
          · cases moved
            exact ⟨status, busy, [.readLoop], rfl, by simp [Instr.Keeps]⟩
          · split at moved
            · cases moved
              exact ⟨status, busy, [.callback, .clearTemp, .readLoop], rfl, by simp [Instr.Keeps]⟩
            · cases moved
              exact ⟨status, busy, [], rfl, nofun⟩
      | flushed _ | read _ | connected _ | wrote _ | closes | returns => cases moved
  | readLoop =>
      cases input with
      | processed result =>
          simp only [Tcp.run] at moved
          split at moved
          · cases moved
            exact ⟨status, busy, [], rfl, nofun⟩
          · split at moved
            · cases moved
              exact ⟨status, busy, [.callback, .readLoop], rfl, by simp [Instr.Keeps]⟩
            · cases moved
              exact ⟨status, busy, [], rfl, nofun⟩
      | flushed _ | read _ | connected _ | wrote _ | closes | returns => cases moved
  | clearTemp =>
      cases moved
      exact ⟨status, busy, [], rfl, nofun⟩
  | callback =>
      cases input with
      | returns =>
          cases moved
          exact ⟨status, busy, [], rfl, nofun⟩
      | closes => exact absurd rfl unclosed
      | processed _ | flushed _ | read _ | connected _ | wrote _ => cases moved
  | afterReconnect | connect | reconnect | clearHandler | directWrite | processWrite | eraseFront
  | close | cleanWrite | dropManager | closeStatus => cases keeps

/-- The half-closed connection between and during events. -/
structure Holding (s : Reader θ) : Prop where
  status : s.tcp.status = .shutdownWrite
  writeBusy : s.tcp.writeBusy = true
  keeps : ∀ instr ∈ s.tcp.todo, Instr.Keeps instr
  ends : s.tcp.todo = [] ∨ TcpChanges.Ends s.tcp.status s.tcp.todo
  returned : ∀ result ∈ s.returned, result = true
  reads : ∀ call ∈ s.reads, call.after = call.before ++ call.delivered

theorem go_to_holding {input : Input} {instr : Instr} {rest : List Instr} (holding : Holding s)
    (at_ : s.tcp.todo = instr :: rest) (moved : s.tcp.run rest instr input = some tcp)
    (quiet : ∀ exit, instr = .directRead → input = .read exit → exit = .again ∨ exit = .interrupted)
    (unclosed : input ≠ .closes) : Holding (s.goTo tcp) := by
  have keeps := holding.keeps
  rw [at_] at keeps
  obtain ⟨here, others⟩ := List.forall_mem_cons.mp keeps
  obtain ⟨status, writeBusy, next, todo, pushed⟩ :=
    busy_step holding.status holding.writeBusy here quiet unclosed moved
  have open_ (status : TcpStatus) (same : status = .shutdownWrite) : ¬Final status := by
    rw [same]
    decide
  have busy : TcpChanges.Ends s.tcp.status s.tcp.todo := by
    refine holding.ends.resolve_left ?_
    rw [at_]
    exact List.cons_ne_nil _ _
  have outcome : TcpChanges.Ends tcp.status tcp.todo ∨ s.tcp.todo = [.getEvent] ∧ tcp.todo = [] :=
    (ends_step (open_ _ holding.status) busy at_ moved).resolve_left (open_ _ status)
  refine ⟨status, writeBusy, ?_, ?_, ?_, holding.reads⟩
  · change ∀ instr ∈ tcp.todo, Instr.Keeps instr
    rw [todo]
    exact List.forall_mem_append.mpr ⟨pushed, others⟩
  · rcases outcome with remains | ⟨_, idle⟩
    · exact .inr remains
    · exact .inl idle
  · intro result member
    simp only [Reader.goTo] at member
    split at member
    -- Nothing is left to do, so the instruction was `get_event`, on an open status.
    · rename_i ended
      rcases List.mem_append.mp member with earlier | last
      · exact holding.returned result earlier
      · have getEvent := (outcome.resolve_left (fun remains => ends_busy remains ended.2)).1
        rw [List.mem_singleton.mp last, decide_eq_true ⟨getEvent, open_ _ status⟩]
    · exact holding.returned result member

theorem frame_holding (holding : Holding s) (status : tcp.status = s.tcp.status)
    (writeBusy : tcp.writeBusy = s.tcp.writeBusy) (todo : tcp.todo = s.tcp.todo) :
    Holding (s.goTo tcp) := by
  have returned : (s.goTo tcp).returned = s.returned := by
    simp only [Reader.goTo]
    rw [if_neg]
    rintro ⟨busy, idle⟩
    exact busy (todo.symm.trans idle)
  refine ⟨status.trans holding.status, writeBusy.trans holding.writeBusy, ?_, ?_, ?_, holding.reads⟩
  · change ∀ instr ∈ tcp.todo, _
    rw [todo]
    exact holding.keeps
  · change tcp.todo = [] ∨ TcpChanges.Ends tcp.status tcp.todo
    rw [todo, status]
    exact holding.ends
  · rw [returned]
    exact holding.returned

section Threads
variable [DecidableEq θ]

theorem event_holding {events : Events} (holding : Holding s) (plain : events.epollrdhup = false)
    (moved : run s (.event events) = some after) : Holding after := by
  obtain ⟨tcp, began, rfl⟩ := Option.map_eq_some_iff.mp moved
  simp only [callMove] at began
  split at began
  · cases began
    have returned : (s.goTo { s.tcp with todo := [.dispatch events] }).returned = s.returned := by
      simp [Reader.goTo]
    refine ⟨holding.status, holding.writeBusy, ?_, .inr .dispatch, ?_, holding.reads⟩
    · intro instr member
      rw [List.mem_singleton.mp member]
      exact plain
    · rw [returned]
      exact holding.returned
  · cases began

omit [DecidableEq θ] in
theorem filled_holding {done : Filling} {results : List ReadResult} (holding : Holding s)
    (filled : s.readBuffer.fill results = some done) : Holding (s.filled done) := by
  refine ⟨holding.status, holding.writeBusy, holding.keeps, holding.ends, holding.returned, ?_⟩
  intro call member
  rcases List.mem_append.mp member with earlier | last
  · exact holding.reads call earlier
  · rw [List.mem_singleton.mp last]
    exact fill_appends filled

theorem read_holding {results : List ReadResult} (holding : Holding s)
    (quiet : ∀ result ∈ results, Quiet result) (moved : run s (.read results) = some after) :
    Holding after := by
  have readable : Readable s.tcp.status := .inr holding.status
  simp only [run, if_pos readable] at moved
  split at moved
  · cases moved
  · obtain ⟨done, filled, later⟩ := Option.bind_eq_some_iff.mp moved
    obtain ⟨tcp, looped, rfl⟩ := Option.map_eq_some_iff.mp later
    obtain ⟨_, _, at_, ran⟩ := loop_at looped
    refine go_to_holding (filled_holding holding filled) at_ ran ?_ (by rintro ⟨⟩)
    rintro exit _ ⟨rfl⟩
    exact fill_quiet quiet filled

theorem step_holding {move : Move θ} (holding : Holding s) (allowed : Undisturbed s move)
    (moved : run s move = some after) : Holding after := by
  cases move with
  | event events => exact event_holding holding allowed moved
  | read results => exact read_holding holding allowed moved
  | loop input readBuffer =>
      simp only [run] at moved
      split at moved
      · cases moved
      · rename_i head
        obtain ⟨tcp, looped, rfl⟩ := Option.map_eq_some_iff.mp moved
        obtain ⟨_, _, at_, ran⟩ := loop_at looped
        have holds : Holding { s with readBuffer } :=
          ⟨holding.status, holding.writeBusy, holding.keeps, holding.ends, holding.returned,
            holding.reads⟩
        refine go_to_holding holds at_ ran ?_ ?_
        · rintro exit rfl _
          rw [at_] at head
          exact absurd rfl head
        · rintro rfl
          exact allowed
  | register t type ioId size =>
      obtain ⟨tcp, stepped, rfl⟩ := Option.map_eq_some_iff.mp moved
      have step := register_steps stepped
      apply frame_holding holding <;> cases step <;> rfl
  | advance t =>
      obtain ⟨tcp, stepped, rfl⟩ := Option.map_eq_some_iff.mp moved
      have step := advance_steps stepped
      apply frame_holding holding <;> cases step <;> rfl

theorem busy_survives (half : HalfOpen s) (busy : s.tcp.writeBusy = true)
    (reached : ReachableBy (eventsFrom s) Undisturbed after) : Survives after := by
  have holding : Holding after := by
    apply invariant _ _ reached
    · rintro state rfl
      refine ⟨half.status, busy, ?_, .inl half.idle, ?_, ?_⟩
      · rw [half.idle]
        nofun
      · rw [half.returned]
        nofun
      · rw [half.reads]
        nofun
    · exact fun _ _ _ holds allowed moved => step_holding holds allowed moved
  refine ⟨?_, holding.returned, holding.reads⟩
  rw [holding.status]
  decide

end Threads

end Busy

section Idle
variable [DecidableEq θ]

def Leads (start : Reader θ) (there : Tcp θ → Prop) : Prop :=
  ∃ after, ReachableBy (eventsFrom start) Undisturbed after ∧ there after.tcp

def Calm : Instr → Input → Prop
  | .directRead, _ | _, .closes => False
  | _, _ => True

def Does (tcp : Tcp θ) (there : Tcp θ → Prop) : Prop :=
  ∃ instr rest input next, tcp.todo = instr :: rest ∧ Calm instr input ∧
    tcp.run rest instr input = some next ∧ there next

theorem leads_loop {here there : Tcp θ → Prop} (leads : Leads s here)
    (does : ∀ tcp, here tcp → there tcp ∨ Does tcp there) : Leads s there := by
  obtain ⟨now, reached, holds⟩ := leads
  rcases does now.tcp holds with already | ⟨instr, rest, input, next, at_, calm, ran, goal⟩
  · exact ⟨now, reached, already⟩
  · have allowed : Undisturbed now (.loop input now.readBuffer) := by
      cases input with
      | closes => cases instr <;> cases calm
      | processed _ | flushed _ | read _ | connected _ | wrote _ | returns => trivial
    have head : now.tcp.todo.head? ≠ some .directRead := by
      rw [at_]
      rintro ⟨rfl⟩
      cases calm
    have looped : loopMove now.tcp input = some next := (loop_run at_).trans ran
    have moves : (eventsFrom s).step now (.loop input now.readBuffer) (now.goTo next) := by
      change run now (.loop input now.readBuffer) = _
      simp only [run, if_neg head, looped]
      rfl
    exact ⟨now.goTo next, .next reached allowed moves, goal⟩

structure At (todo : List Instr) (tcp : Tcp θ) : Prop where
  status : tcp.status = .shutdownWrite
  idle : tcp.writeBusy = false
  at_ : tcp.todo = todo

def plain : Events := ⟨false, false, false⟩

theorem event_begins (half : HalfOpen s) (idle : s.tcp.writeBusy = false) :
    Leads s (At [.dispatch plain]) := by
  have allowed : Undisturbed s (.event plain) := rfl
  have moves : (eventsFrom s).step s (.event plain)
      (s.goTo { s.tcp with todo := [.dispatch plain] }) := by
    change run s (.event plain) = _
    simp only [run, callMove, if_pos (And.intro half.idle half.managed)]
    rfl
  exact ⟨_, .next (.start rfl) allowed moves, half.status, idle, rfl⟩

theorem reaches_flush (half : HalfOpen s) (idle : s.tcp.writeBusy = false) :
    Leads s (At [.writeFlush, .writeStage false, .finishEvent]) := by
  have starts : Leads s (At [.checkReadable, .writeFlush, .writeStage false, .finishEvent]) := by
    apply leads_loop (event_begins half idle)
    rintro tcp ⟨status, idle, at_⟩
    refine .inr ⟨_, _, .returns, _, at_, trivial, rfl, status, idle, ?_⟩
    dsimp only
    rw [status]
    rfl
  apply leads_loop starts
  rintro tcp ⟨status, idle, at_⟩
  refine .inr ⟨_, _, .returns, _, at_, trivial, rfl, status, idle, ?_⟩
  dsimp only
  rw [if_pos (.inr status)]
  rfl

theorem flushes {rest : List Instr} {ops : List TcpLoop.Op}
    (leads : Leads s (fun tcp => At (.writeFlush :: rest) tcp ∧ tcp.writeList = ops)) :
    Leads s (fun tcp => At rest tcp ∧ tcp.writeList = []) := by
  induction ops with
  | nil =>
      apply leads_loop leads
      rintro tcp ⟨⟨status, idle, at_⟩, listed⟩
      refine .inr ⟨_, _, .flushed tcp.writeBuffer, { tcp with todo := rest }, at_, trivial, ?_,
        ⟨status, idle, rfl⟩, listed⟩
      simp only [Tcp.run, listed]
  | cons op ops ih =>
      apply ih
      apply leads_loop leads
      rintro tcp ⟨⟨status, idle, at_⟩, listed⟩
      refine .inr ⟨_, _, .flushed tcp.writeBuffer, { tcp.record (.process op) with
        writeList := ops
        waitWriteList := tcp.waitWriteList ++ [op]
        todo := .writeFlush :: rest }, at_, trivial, ?_, ⟨status, idle, rfl⟩, rfl⟩
      simp only [Tcp.run, listed]
      rfl

theorem reaches_close (half : HalfOpen s) (idle : s.tcp.writeBusy = false) :
    Leads s (fun tcp => At [.close, .processWrite, .finishEvent] tcp ∧ tcp.writeList = []) := by
  obtain ⟨now, reached, here⟩ := reaches_flush half idle
  have staged := flushes ⟨now, reached, here, rfl⟩
  have writes : Leads s (fun tcp => At [.directWrite, .processWrite, .finishEvent] tcp ∧
      tcp.writeList = []) := by
    apply leads_loop staged
    rintro tcp ⟨⟨status, idle, at_⟩, listed⟩
    refine .inr ⟨_, _, .returns, _, at_, trivial, rfl, ⟨status, idle, ?_⟩, listed⟩
    dsimp only
    rw [idle]
    rfl
  apply leads_loop writes
  rintro tcp ⟨⟨status, idle, at_⟩, listed⟩
  -- `direct_write` closes: its `readable_unsafe() && status() == connected` cannot hold here.
  refine .inr ⟨_, _, .wrote [], { tcp with todo := [.close, .processWrite, .finishEvent] },
    at_, trivial, ?_, ⟨status, idle, rfl⟩, listed⟩
  simp only [Tcp.run, status]
  rfl

theorem reads_cleaned {rest : List Instr}
    (leads : Leads s (fun tcp => At (.processRead :: rest) tcp ∧ tcp.writeList = [])) :
    Leads s (fun tcp => At rest tcp ∧ tcp.writeList = []) := by
  have looks : Leads s (fun tcp => (At (.readLoop :: rest) tcp ∨ At rest tcp) ∧
      tcp.writeList = []) := by
    apply leads_loop leads
    rintro tcp ⟨⟨status, idle, at_⟩, listed⟩
    cases parked : tcp.tempReadEvent with
    | none =>
        refine .inr ⟨_, _, .processed false, { tcp with todo := .readLoop :: rest },
          at_, trivial, ?_, .inl ⟨status, idle, rfl⟩, listed⟩
        simp only [Tcp.run, parked]
    | some op =>
        refine .inr ⟨_, _, .processed false, { tcp.record (.process op) with todo := rest },
          at_, trivial, ?_, .inr ⟨status, idle, rfl⟩, listed⟩
        simp [Tcp.run, parked]
  apply leads_loop looks
  rintro tcp ⟨⟨status, idle, at_⟩ | done, listed⟩
  · cases queued : tcp.readList with
    | nil =>
        refine .inr ⟨_, _, .processed false, { tcp with todo := rest }, at_, trivial, ?_,
          ⟨status, idle, rfl⟩, listed⟩
        simp only [Tcp.run, queued]
    | cons op ops =>
        refine .inr ⟨_, _, .processed false, { tcp.record (.process op) with
          readList := ops, tempReadEvent := some op, todo := rest }, at_, trivial, ?_,
          ⟨status, idle, rfl⟩, listed⟩
        simp [Tcp.run, queued]
  · exact .inl ⟨done, listed⟩

theorem idle_closes (half : HalfOpen s) (idle : s.tcp.writeBusy = false) :
    Leads s (fun tcp => Final tcp.status) := by
  have closing : Leads s (fun tcp => At [.processRead, .cleanWrite, .dropManager, .closeStatus,
      .processWrite, .finishEvent] tcp ∧ tcp.writeList = []) := by
    apply leads_loop (reaches_close half idle)
    rintro tcp ⟨⟨status, idle, at_⟩, listed⟩
    exact .inr ⟨_, _, .returns, _, at_, trivial, rfl, ⟨status, idle, rfl⟩, listed⟩
  have cleaned : Leads s (At [.dropManager, .closeStatus, .processWrite, .finishEvent]) := by
    apply leads_loop (reads_cleaned closing)
    rintro tcp ⟨⟨status, idle, at_⟩, listed⟩
    refine .inr ⟨_, _, .returns, { tcp with
      todo := [.dropManager, .closeStatus, .processWrite, .finishEvent] }, at_, trivial, ?_,
      status, idle, rfl⟩
    simp only [Tcp.run, listed]
  have left : Leads s (At [.closeStatus, .processWrite, .finishEvent]) := by
    apply leads_loop cleaned
    rintro tcp ⟨status, idle, at_⟩
    exact .inr ⟨_, _, .returns, _, at_, trivial, rfl, status, idle, rfl⟩
  apply leads_loop left
  rintro tcp ⟨status, idle, at_⟩
  refine .inr ⟨_, _, .returns, _, at_, trivial, rfl, ?_⟩
  dsimp only
  rw [status]
  exact .inl rfl

end Idle

section BrokenPipe
variable [DecidableEq θ]

def loopFrom (start : Tcp θ) : System (Tcp θ) (TcpLoop.Move θ) where
  init s := s = start
  step before move after := move.run before = some after

variable {old new : Tcp θ} {below : List Instr}

theorem closing_step_from {move : TcpLoop.Move θ}
    (closing : Final old.status ∨ Closes old.todo below) (moved : move.run old = some new) : Final new.status ∨ Closes new.todo below := by
  cases move with
  | call made =>
      obtain ⟨idle, readyToWrite, next, _, rfl⟩ := call_steps moved
      rcases closing with final | closes
      · exact .inl final
      · exact absurd idle (closes_busy closes).1
  | loop input =>
      obtain ⟨_, _, at_, ran⟩ := loop_at moved
      rcases closing with final | closes
      · exact .inl (final_step final ran)
      · obtain ⟨_, _, ⟨_, still⟩ | ⟨final, _⟩⟩ := closes_step closes at_ ran
        · exact .inr still
        · exact .inl final
  | register t type ioId size =>
      have step := register_steps moved
      cases step <;> exact closing
  | advance t =>
      have step := advance_steps moved
      cases step <;> exact closing

/-- A `write(2)` that fails with EPIPE on a connected instance: when `direct_write` has
returned, the instance is closed, not half-closed. -/
theorem broken_pipe_closes {results : List WriteResult} {done : Drained}
    (connected : old.status = .connected) (at_ : old.todo = .directWrite :: below)
    (drains : drainBuffer results old.writeBuffer = .ok done) (broken : done.exit = .brokenPipe)
    (wrote : loopMove old (.wrote results) = some new) {after : Tcp θ}
    (reached : Reachable (loopFrom new) after) (returned : after.todo = below) :
    Final after.status := by
  have closes : Closes new.todo below := by
    have writable : Writable old.status := .inl connected
    simp only [loopMove, at_, Tcp.run, if_pos writable, drains] at wrote
    cases wrote
    refine ⟨[.close], ?_, ?_, .inl (List.mem_singleton_self _)⟩
    · simp [broken, connected, writeEnded, Setter.apply, Setter.next, writableNext, afterDirectWrite,
        Writable]
    · simp [Instr.Closing]
  have closing : Final after.status ∨ Closes after.todo below := by
    apply invariant _ _ reached
    · rintro state rfl
      exact .inr closes
    · exact fun _ _ _ holds _ moved => closing_step_from holds moved
  exact closing.resolve_right (fun still => (closes_busy still).2 returned)

end BrokenPipe

section Result
variable [DecidableEq θ]

/-- From a half-closed state every undisturbed run survives if and only if the instance
is busy; and a connected instance whose `write(2)` fails with EPIPE is closed when
`direct_write` returns, in every run. -/
theorem half_closed_survives :
    (∀ s : Reader θ, HalfOpen s →
      ((∀ after, ReachableBy (eventsFrom s) Undisturbed after → Survives after) ↔
        s.tcp.writeBusy = true)) ∧
    ∀ (old new after : Tcp θ) (below : List Instr) (results : List WriteResult) (done : Drained),
      old.status = .connected → old.todo = .directWrite :: below →
      drainBuffer results old.writeBuffer = .ok done → done.exit = .brokenPipe →
      loopMove old (.wrote results) = some new → Reachable (loopFrom new) after →
      after.todo = below → Final after.status := by
  constructor
  · intro s half
    constructor
    · intro survives
      by_contra idle
      rw [Bool.not_eq_true] at idle
      obtain ⟨after, reached, final⟩ := idle_closes half idle
      exact (survives after reached).open_ final
    · exact fun busy after reached => busy_survives half busy reached
  · intro old new after below results done connected at_ drains broken wrote reached returned
    exact broken_pipe_closes connected at_ drains broken wrote reached returned

end Result

def noBytes : ReadBuffer :=
  ⟨⟨.initial (fun _ _ => 0) 256, .fresh⟩, [], fresh_rep, initial_owns _ _⟩

def halfClosed (writeBusy : Bool) : Reader Unit :=
  ⟨{ Tcp.construct 3 .shutdownWrite false (.initial (fun _ _ => 0) 256) with writeBusy },
    noBytes, [], []⟩

theorem half_closed_open (writeBusy : Bool) : HalfOpen (halfClosed writeBusy) :=
  ⟨rfl, rfl, rfl, rfl, rfl⟩

def sending : Tcp Unit :=
  { Tcp.construct 3 .connected false (.initial (fun _ _ => 0) 256) with
    writeBuffer := ⟨.initial (fun _ _ => 0) 256, ⟨[0], 0, 2⟩⟩
    todo := [.directWrite] }

theorem sending_drains : ∃ done, drainBuffer [.failed .epipe] sending.writeBuffer = .ok done ∧
    done.exit = .brokenPipe := by
  have exit : (drainBuffer [.failed .epipe] sending.writeBuffer).toOption.map (·.exit) =
      some .brokenPipe := by decide +kernel
  cases drains : drainBuffer [.failed .epipe] sending.writeBuffer with
  | ok done =>
      rw [drains] at exit
      exact ⟨done, rfl, Option.some.inj exit⟩
  | error fault =>
      rw [drains] at exit
      cases exit

theorem half_closed_survives_busy :
    (∀ after, ReachableBy (eventsFrom (halfClosed true)) Undisturbed after → Survives after) ∧
      ∀ new after, loopMove sending (.wrote [.failed .epipe]) = some new →
        Reachable (loopFrom new) after → after.todo = [] → Final after.status := by
  obtain ⟨stays, closes⟩ := @half_closed_survives Unit _
  obtain ⟨done, drains, exit⟩ := sending_drains
  refine ⟨(stays (halfClosed true) (half_closed_open true)).mpr rfl, ?_⟩
  intro new after wrote reached returned
  exact closes sending new after [] _ done rfl rfl drains exit wrote reached returned

/-- The first event closes an instance that is not busy. -/
theorem half_closed_closes : HalfOpen (halfClosed false) ∧
    ¬∀ after, ReachableBy (eventsFrom (halfClosed false)) Undisturbed after → Survives after := by
  refine ⟨half_closed_open false, ?_⟩
  intro survives
  obtain ⟨after, reached, final⟩ := idle_closes (half_closed_open false) rfl
  exact (survives after reached).open_ final

end Npoller.HalfClosed
