import Npoller.DirectIoSpec
import Npoller.StepSystem
import Npoller.TcpLoop

/-!
The writes of an `io` of the base class on its event loop: `io::process_event` and
`process_instant_write` with the event mask that the kernel has for the descriptor, and
`do_register` on any number of threads. The write buffer is the number of its bytes;
reading and the completion of operations are left out, and callbacks register and close
as any thread does. `write_busy` is set where `write(2)` fails with EAGAIN and is never
cleared.
-/

namespace Npoller.PlainEvents

open SizeT DirectIo DirectIoSpec IoBuffer IoBufferSpec MemContainer Outcome Segments StepSystem
  TcpLoop

/-- The status that the event loop samples before an event or an instant write. -/
structure Flags where
  readable : Bool
  writable : Bool
  supportEpollrdhup : Bool
  writeBusy : Bool
  deriving DecidableEq, Repr

structure Mask where
  epollin : Bool
  epollrdhup : Bool
  epollout : Bool
  epollet : Bool
  deriving DecidableEq, Repr

def Flags.getEvent (flags : Flags) : Option Mask :=
  if flags.readable = false ∧ flags.writable = false then none
  else some {
    epollin := flags.readable
    epollrdhup := flags.supportEpollrdhup && flags.readable
    epollout := flags.writable && (!flags.readable || flags.writeBusy)
    epollet := flags.writable && !flags.readable }

/-- `io::compare_status`. It compares `_support_epollrdhup` with itself. -/
def compareStatus (before now : Flags) : Bool :=
  before.readable != now.readable || before.writable != now.writable ||
    before.supportEpollrdhup != before.supportEpollrdhup || before.writeBusy != now.writeBusy

/-- Which call of `direct_write` the loop thread is on its way to. -/
inductive Turn where
  | event (epollout : Bool)
  | instant
  deriving DecidableEq, Repr

inductive Pc where
  | waiting
  | readStage (events : Events)
  | rdhupStage (events : Events)
  | writeFlush (turn : Turn)
  | writeStage (epollout : Bool)
  | directWrite (turn : Turn)
  | writableStage
  | cleanWrite
  | getEvent
  deriving DecidableEq, Repr

/-- `do_register` of a write operation; `loadBusy` and what follows know whether the
second load of `manager` found one. -/
inductive RegisterPc (ω : Type*) where
  | idle
  | checkValid (op : ω)
  | checkManager (op : ω)
  | checkWritable (op : ω)
  | push (op : ω)
  | loadManager
  | loadBusy (managed : Bool)
  | find
  | enqueue
  deriving DecidableEq, Repr

/-- The operation is in `write_list`, and `ready_to_write` will have the io unless
`write_busy` is set. -/
def RegisterPc.Registering {ω : Type*} : RegisterPc ω → Prop
  | .loadManager | .loadBusy _ | .find | .enqueue => True
  | .idle | .checkValid _ | .checkManager _ | .checkWritable _ | .push _ => False

/-- `listed` is whether `io_map` and the epoll set have the io. The kernel owes an edge
from `epoll_ctl` or a `write(2)` that fails with EAGAIN on, until it reports EPOLLOUT. -/
structure PlainIo (ω θ : Type*) where
  valid : Bool
  managed : Bool
  listed : Bool
  flags : Flags
  before : Flags
  buffered : Nat
  writeList : List ω
  readyToWrite : Nat
  mask : Mask
  owesEdge : Bool
  pc : Pc
  threads : θ → RegisterPc ω

variable {ω θ : Type*}

def PlainIo.added (flags : Flags) (mask : Mask) : PlainIo ω θ :=
  { valid := true, managed := true, listed := true, flags, before := flags, buffered := 0
    writeList := [], readyToWrite := 0, mask, owesEdge := true, pc := .waiting
    threads := fun _ => .idle }

/-- `io::mark_invalid` with its `remove_io`. -/
def PlainIo.markInvalid (s : PlainIo ω θ) : PlainIo ω θ :=
  { s with
    listed := s.listed && !s.managed
    managed := false
    valid := false
    flags := { s.flags with readable := false, writable := false } }

/-- What the loops of `direct_read` and `direct_write` do to the flags before they end. -/
def PlainIo.readEnded (s : PlainIo ω θ) : Exit → PlainIo ω θ
  | .eof => { s with flags := { s.flags with readable := false, supportEpollrdhup := false } }
  | .badFd => s.markInvalid
  | .again | .interrupted | .invalid | .brokenPipe | .drained | .failed => s

def PlainIo.writeEnded (s : PlainIo ω θ) : Exit → PlainIo ω θ
  | .again => { s with flags := { s.flags with writeBusy := true }, owesEdge := true }
  | .invalid | .brokenPipe => { s with flags := { s.flags with writable := false } }
  | .badFd => s.markInvalid
  | .interrupted | .eof | .drained | .failed => s

/-- A `direct_write` of so many bytes leaves `now` of them. -/
def Wrote (buffered now : Nat) (exit : Exit) : Prop := now ≤ buffered ∧ (exit = .drained ↔ now = 0)

instance (buffered now : Nat) (exit : Exit) : Decidable (Wrote buffered now exit) :=
  inferInstanceAs (Decidable (_ ∧ _))

section Buffer
variable {mem : Mem} {results : List WriteResult} {cb : ControlBlock}

theorem write_request_unsent (unsent : Unsent cb) :
    (∃ fault, writeRequest cb = .error fault) ∨
      ∃ block, writeRequest cb = .ok (some ⟨block, canWriteBytes cb⟩) := by
  rw [writeRequest, if_pos unsent]
  cases blockAt cb.buffer (cb.beginPos / defaultSize) with
  | error fault => exact .inl ⟨fault, rfl⟩
  | ok block => exact .inr ⟨block, rfl⟩

theorem write_loop_exit {retryTimes writeSum : Nat} {done : WriteDone}
    (loops : directWriteLoop mem results retryTimes writeSum cb = .ok done) :
    done.exit = .drained ↔ ¬Unsent done.cb := by
  induction results generalizing retryTimes writeSum cb done with
  | nil =>
      by_cases unsent : Unsent cb
      · rcases write_request_unsent unsent with ⟨fault, request⟩ | ⟨block, request⟩
        · rw [write_loop_fails request] at loops
          cases loops
        · rw [directWriteLoop, request] at loops
          cases loops
          refine ⟨fun drained => ?_, fun sent => absurd unsent sent⟩
          cases drained
      · rw [write_loop_sent unsent] at loops
        cases loops
        exact ⟨fun _ => unsent, fun _ => rfl⟩
  | cons result results ih =>
      by_cases unsent : Unsent cb
      · rcases write_request_unsent unsent with ⟨fault, request⟩ | ⟨block, request⟩
        · rw [write_loop_fails request] at loops
          cases loops
        · rw [directWriteLoop, request, ok_bind] at loops
          cases result with
          | accepted more =>
              dsimp only at loops
              cases later : directWriteLoop mem results retryTimes
                  ((writeSum + min (more + 1) (canWriteBytes cb)) % uintSize)
                  { cb with beginPos := cb.beginPos + min (more + 1) (canWriteBytes cb) } with
              | error fault =>
                  rw [later] at loops
                  cases loops
              | ok ended =>
                  rw [later] at loops
                  cases loops
                  change ended.exit = .drained ↔ ¬Unsent ended.cb
                  exact ih later
          | zero errno | failed errno =>
              dsimp only at loops
              split at loops
              · exact ih loops
              · cases loops
                refine ⟨fun drained => ?_, fun sent => absurd unsent sent⟩
                cases errno <;> cases drained
      · rw [write_loop_sent unsent] at loops
        cases loops
        exact ⟨fun _ => unsent, fun _ => rfl⟩

theorem drain_loop {s : Buf} {done : Drained} (drains : drainBuffer results s = .ok done) :
    ∃ ended, directWriteLoop s.mem results 0 0 s.cb = .ok ended ∧ ended.exit = done.exit ∧
      ended.accepted = done.accepted := by
  unfold drainBuffer at drains
  cases loops : directWriteLoop s.mem results 0 0 s.cb with
  | error fault =>
      rw [loops] at drains
      cases drains
  | ok ended =>
      rw [loops, ok_bind] at drains
      refine ⟨ended, rfl, ?_⟩
      cases shrunk : shrinkSize ⟨s.mem, if ended.cb.beginPos = ended.cb.endPos then
          ended.cb.emptied else ended.cb⟩ with
      | error fault =>
          dsimp only at drains
          rw [shrunk] at drains
          cases drains
      | ok buf =>
          dsimp only at drains
          rw [shrunk] at drains
          cases drains
          exact ⟨rfl, rfl⟩

theorem drain_wrote {born : Nat} {rest : List BlockId} {s : Buf} (rep : Rep s.cb)
    (owns : Owns born s.mem (s.cb.buffer ++ rest)) :
    Ends (fun _ => False) (drainBuffer results s)
      (fun done => Wrote (content s).length (content done.buf).length done.exit) := by
  apply ends_weaken (ends_returned (drain_buffer_spec results rep owns))
  rintro done ⟨drained, drains⟩
  obtain ⟨ended, loops, exit, accepted⟩ := drain_loop drains
  have reach := drained.reach
  rw [Wrote, drained.serves.holds, List.length_drop, ← exit, write_loop_exit loops]
  refine ⟨Nat.sub_le _ _, ?_⟩
  rcases rep with vacant | filled
  · have idle : ¬Unsent s.cb := fun unsent => unsent.1 vacant.1
    rw [write_loop_sent idle] at loops
    cases loops
    refine ⟨fun _ => ?_, fun _ => idle⟩
    rw [vacant_content vacant]
    exact Nat.zero_sub _
  · have few := owns_buffer_length owns
    have sending : Sending s.cb := ⟨Nat.le_of_lt filled.nonempty, filled.within, few⟩
    have sends : Ends (fun _ => False) (directWriteLoop s.mem results 0 0 s.cb) _ :=
      direct_write_loop_spec results 0 0 sending (by simp only [uintSize]; omega)
    rw [loops, ends_ok] at sends
    have limit := bytes_bounded few
    have within := filled.within
    have nonempty := filled.nonempty
    rw [Unsent, sends.moved, content_length within, ← accepted]
    have stop := sends.reach
    simp only [npos]
    omega
end Buffer

/-- What the steps of the loop thread find: how reading ended, the bytes in the buffer
after `process` of an operation, and the outcome of writing. -/
inductive Input where
  | none
  | read (exit : Exit)
  | flushed (now : Nat)
  | wrote (now : Nat) (exit : Exit)
  deriving DecidableEq, Repr

def Pc.afterFlush : Turn → Pc
  | .event epollout => .writeStage epollout
  | .instant => .directWrite .instant

def Pc.afterWrite : Turn → Pc
  | .event _ => .writableStage
  | .instant => .getEvent

/-- One step of `process_event` or `process_instant_write`. -/
def PlainIo.loop (s : PlainIo ω θ) : Pc → Input → Option (PlainIo ω θ)
  | .readStage events, .read exit =>
      some (if events.epollin = true ∧ s.valid = true ∧ s.flags.readable = true then
        PlainIo.readEnded { s with pc := .rdhupStage events } exit
      else { s with pc := .rdhupStage events })
  | .rdhupStage events, .none =>
      some (if events.epollrdhup then
        { s with
          pc := .writeFlush (.event events.epollout), flags := { s.flags with readable := false } }
      else { s with pc := .writeFlush (.event events.epollout) })
  | .writeFlush turn, .flushed now =>
      match s.writeList with
      | [] => some { s with pc := Pc.afterFlush turn }
      | _ :: ops => some { s with writeList := ops, buffered := now }
  | .writeStage epollout, .none =>
      some { s with
        pc := if epollout || !s.flags.writeBusy then .directWrite (.event epollout)
          else .writableStage }
  | .directWrite turn, .wrote now exit =>
      if s.valid = true ∧ s.flags.writable = true then
        if Wrote s.buffered now exit then
          some (PlainIo.writeEnded { s with pc := Pc.afterWrite turn, buffered := now } exit)
        else none
      else some { s with pc := Pc.afterWrite turn }
  | .writableStage, .none =>
      some { s with pc := if s.flags.writable then .getEvent else .cleanWrite }
  | .cleanWrite, .none =>
      match s.writeList with
      | [] => some { s with pc := .getEvent }
      | _ :: ops => some { s with writeList := ops }
  | .getEvent, .none =>
      match s.flags.getEvent with
      | some mask =>
          if compareStatus s.before s.flags && s.listed then
            some { s with pc := .waiting, mask, owesEdge := true }
          else some { s with pc := .waiting }
      | none => some { s with pc := .waiting }
  | _, _ => none

section Moves
variable [DecidableEq θ]

def PlainIo.goto (s : PlainIo ω θ) (t : θ) (pc : RegisterPc ω) : PlainIo ω θ :=
  { s with threads := Function.update s.threads t pc }

def PlainIo.advance (s : PlainIo ω θ) (t : θ) : RegisterPc ω → Option (PlainIo ω θ)
  | .idle => none
  | .checkValid op => some (s.goto t (if s.valid then .checkManager op else .idle))
  | .checkManager op => some (s.goto t (if s.managed then .checkWritable op else .idle))
  | .checkWritable op => some (s.goto t (if s.flags.writable then .push op else .idle))
  | .push op => some { s.goto t .loadManager with writeList := s.writeList ++ [op] }
  | .loadManager => some (s.goto t (.loadBusy s.managed))
  | .loadBusy managed => some (s.goto t (if !s.flags.writeBusy && managed then .find else .idle))
  | .find => some (s.goto t (if s.listed then .enqueue else .idle))
  | .enqueue => some { s.goto t .idle with readyToWrite := s.readyToWrite + 1 }

inductive Move (ω θ : Type*) where
  | report (events : Events)
  | instantWrite
  | loop (input : Input)
  | register (t : θ) (op : ω)
  | advance (t : θ)
  | close
  | removeIo

/-- What `epoll_wait` can report. -/
def Within (events : Events) (mask : Mask) : Prop :=
  (events.epollin = true → mask.epollin = true) ∧ (events.epollout = true → mask.epollout = true) ∧
    (events.epollrdhup = true → mask.epollrdhup = true)

instance (events : Events) (mask : Mask) : Decidable (Within events mask) :=
  inferInstanceAs (Decidable (_ ∧ _ ∧ _))

/-- `close` is `io::close`, `removeIo` the one of the processor, on any thread. -/
def run (s : PlainIo ω θ) : Move ω θ → Option (PlainIo ω θ)
  | .report events =>
      if s.pc = .waiting ∧ s.listed = true ∧ Within events s.mask then
        some { s with
          before := s.flags, pc := .readStage events, owesEdge := s.owesEdge && !events.epollout }
      else none
  | .instantWrite =>
      if s.pc = .waiting ∧ 0 < s.readyToWrite then
        some { s with
          before := s.flags, pc := .writeFlush .instant, readyToWrite := s.readyToWrite - 1 }
      else none
  | .loop input => s.loop s.pc input
  | .register t op =>
      match s.threads t with
      | .idle => some (s.goto t (.checkValid op))
      | _ => none
  | .advance t => s.advance t (s.threads t)
  | .close => some { s with valid := false }
  | .removeIo => some { s with listed := false }

def plainSystem (ω θ : Type*) [DecidableEq θ] : System (PlainIo ω θ) (Move ω θ) where
  init s := ∃ flags mask, flags.writeBusy = false ∧ flags.getEvent = some mask ∧
    s = PlainIo.added flags mask
  step before move after := run before move = some after

end Moves

def Pc.writes : Pc → Bool
  | .directWrite _ => true
  | _ => false

/-- A `direct_write` ends with everything written, with EAGAIN, or by giving up the
write side. -/
def Finishes (s : PlainIo ω θ) : Move ω θ → Prop
  | .loop (.wrote _ exit) =>
      s.pc.writes = true → exit ≠ .interrupted ∧ exit ≠ .eof ∧ exit ≠ .failed
  | _ => True

instance (s : PlainIo ω θ) : (move : Move ω θ) → Decidable (Finishes s move)
  | .loop (.wrote _ _) => inferInstanceAs (Decidable (_ → _ ∧ _ ∧ _))
  | .loop .none | .loop (.read _) | .loop (.flushed _) | .report _ | .instantWrite
  | .register _ _ | .advance _ | .close | .removeIo => inferInstanceAs (Decidable True)

structure Falls (before now : Flags) : Prop where
  readable : now.readable = true → before.readable = true
  writable : now.writable = true → before.writable = true
  busy : before.writeBusy = true → now.writeBusy = true
  support : now.readable = before.readable → now.supportEpollrdhup = before.supportEpollrdhup

theorem falls_refl (flags : Flags) : Falls flags flags := ⟨id, id, id, fun _ => rfl⟩

theorem falls_trans {before middle now : Flags} (first : Falls before middle)
    (second : Falls middle now) : Falls before now := by
  refine ⟨first.readable ∘ second.readable, first.writable ∘ second.writable,
    second.busy ∘ first.busy, fun same => ?_⟩
  have between : middle.readable = before.readable := by
    cases start : before.readable with
    | false => exact eq_false_of_ne_true (fun up => Bool.false_ne_true (start ▸ first.readable up))
    | true => exact second.readable (same.trans start)
  exact (second.support (same.trans between.symm)).trans (first.support between)

theorem falls_same {before now : Flags} (falls : Falls before now)
    (same : compareStatus before now = false) : now = before := by
  obtain ⟨readable, writable, support, busy⟩ := before
  obtain ⟨nowReadable, nowWritable, nowSupport, nowBusy⟩ := now
  have kept := falls.support
  simp only [compareStatus, Bool.or_eq_false_iff, bne_eq_false_iff_eq] at same kept ⊢
  obtain ⟨⟨⟨rfl, rfl⟩, _⟩, rfl⟩ := same
  rw [kept rfl]

def Open (s : PlainIo ω θ) : Prop := s.valid = true ∧ s.listed = true ∧ s.flags.writable = true

/-- `write_flush` is still to come. -/
def Pc.flushes : Pc → Bool
  | .readStage _ | .rdhupStage _ | .writeFlush _ => true
  | .waiting | .writeStage _ | .directWrite _ | .writableStage | .cleanWrite | .getEvent => false

/-- A `direct_write` is still to come unless `write_busy` is set. -/
def Pc.empties : Pc → Bool
  | .readStage _ | .rdhupStage _ | .writeFlush _ | .writeStage _ | .directWrite _ => true
  | .waiting | .writableStage | .cleanWrite | .getEvent => false

/-- What every step of the loop thread leaves or only takes away. -/
structure LoopStep (s after : PlainIo ω θ) : Prop where
  threads : after.threads = s.threads
  ready : after.readyToWrite = s.readyToWrite
  before : after.before = s.before
  valid : after.valid = true → s.valid = true ∧ after.managed = s.managed
  listed : after.listed = true → s.listed = true
  falls : Falls s.flags after.flags
  queue : after.writeList ≠ [] → s.writeList ≠ [] ∧ (s.pc.flushes = true → after.pc.flushes = true)

variable {s after : PlainIo ω θ} {input : Input}

theorem loop_step_trans {middle : PlainIo ω θ} (first : LoopStep s middle)
    (second : LoopStep middle after) : LoopStep s after := by
  refine ⟨second.threads.trans first.threads, second.ready.trans first.ready,
    second.before.trans first.before, fun valid => ?_, first.listed ∘ second.listed,
    falls_trans first.falls second.falls, fun some_ => ?_⟩
  · obtain ⟨earlier, same⟩ := second.valid valid
    exact ⟨(first.valid earlier).1, same.trans (first.valid earlier).2⟩
  · obtain ⟨earlier, later⟩ := second.queue some_
    exact ⟨(first.queue earlier).1, later ∘ (first.queue earlier).2⟩

theorem goto_step {pc : Pc} (flushes : s.pc.flushes = true → pc.flushes = true) :
    LoopStep s { s with pc } :=
  ⟨rfl, rfl, rfl, fun valid => ⟨valid, rfl⟩, id, falls_refl _, fun some_ => ⟨some_, flushes⟩⟩

theorem mark_invalid_step : LoopStep s s.markInvalid := by
  have falls : Falls s.flags { s.flags with readable := false, writable := false } :=
    ⟨nofun, nofun, id, fun _ => rfl⟩
  exact ⟨rfl, rfl, rfl, nofun, fun listed => (Bool.and_eq_true_iff.mp listed).1, falls,
    fun some_ => ⟨some_, id⟩⟩

theorem read_ended_step (exit : Exit) (readable : s.flags.readable = true) :
    LoopStep s (s.readEnded exit) := by
  cases exit with
  | eof =>
      have falls : Falls s.flags { s.flags with readable := false, supportEpollrdhup := false } :=
        ⟨nofun, id, id, fun same => absurd (same.trans readable) Bool.false_ne_true⟩
      exact ⟨rfl, rfl, rfl, fun valid => ⟨valid, rfl⟩, id, falls, fun some_ => ⟨some_, id⟩⟩
  | badFd => exact mark_invalid_step
  | again | interrupted | invalid | brokenPipe | drained | failed => exact goto_step id

theorem write_ended_step (exit : Exit) : LoopStep s (s.writeEnded exit) := by
  cases exit with
  | again =>
      have falls : Falls s.flags { s.flags with writeBusy := true } :=
        ⟨id, id, fun _ => rfl, fun _ => rfl⟩
      exact ⟨rfl, rfl, rfl, fun valid => ⟨valid, rfl⟩, id, falls, fun some_ => ⟨some_, id⟩⟩
  | invalid | brokenPipe =>
      have falls : Falls s.flags { s.flags with writable := false } :=
        ⟨id, nofun, id, fun _ => rfl⟩
      exact ⟨rfl, rfl, rfl, fun valid => ⟨valid, rfl⟩, id, falls, fun some_ => ⟨some_, id⟩⟩
  | badFd => exact mark_invalid_step
  | interrupted | eof | drained | failed => exact goto_step id

theorem write_ended_pc (exit : Exit) :
    (s.writeEnded exit).pc = s.pc ∧ (s.writeEnded exit).mask = s.mask := by
  cases exit <;> exact ⟨rfl, rfl⟩

theorem read_ended_pc (exit : Exit) :
    (s.readEnded exit).pc = s.pc ∧ (s.readEnded exit).mask = s.mask := by
  cases exit <;> exact ⟨rfl, rfl⟩

/-- What one step of the loop thread does; `goes` is every step that only passes on. -/
inductive Turned (s : PlainIo ω θ) (input : Input) : PlainIo ω θ → Prop where
  | reads {events : Events} {exit : Exit} (at_ : s.pc = .readStage events)
      (reported : events.epollin = true) (readable : s.flags.readable = true) :
      Turned s input (PlainIo.readEnded { s with pc := .rdhupStage events } exit)
  | drops {events : Events} (at_ : s.pc = .rdhupStage events)
      (reported : events.epollrdhup = true) :
      Turned s input { s with
        pc := .writeFlush (.event events.epollout), flags := { s.flags with readable := false } }
  | goes {pc : Pc} (inside : s.pc ≠ .waiting ∧ s.pc ≠ .getEvent ∧ pc ≠ .waiting)
      (follows : ∀ events, pc ≠ .readStage events ∧
        (pc = .rdhupStage events → s.pc = .readStage events))
      (flushes : s.writeList ≠ [] → s.pc.flushes = true → pc.flushes = true)
      (empties : Open s → s.flags.writeBusy = false → s.pc.empties = true → pc.empties = true) :
      Turned s input { s with pc }
  | flushes {turn : Turn} {op : ω} {ops : List ω} {now : Nat} (at_ : s.pc = .writeFlush turn)
      (listed : s.writeList = op :: ops) :
      Turned s input { s with writeList := ops, buffered := now }
  | writes {turn : Turn} {now : Nat} {exit : Exit} (at_ : s.pc = .directWrite turn)
      (given : input = .wrote now exit) (writable : s.flags.writable = true)
      (wrote : Wrote s.buffered now exit) :
      Turned s input (PlainIo.writeEnded { s with pc := Pc.afterWrite turn, buffered := now } exit)
  | cleans {op : ω} {ops : List ω} (at_ : s.pc = .cleanWrite) (listed : s.writeList = op :: ops) :
      Turned s input { s with writeList := ops }
  | modifies {mask : Mask} (at_ : s.pc = .getEvent) (asked : s.flags.getEvent = some mask) :
      Turned s input { s with pc := .waiting, mask, owesEdge := true }
  | ends (at_ : s.pc = .getEvent)
      (same : s.flags.getEvent ≠ none → s.listed = true →
        compareStatus s.before s.flags = false) :
      Turned s input { s with pc := .waiting }

theorem read_stage_turned {events : Events} (at_ : s.pc = .readStage events)
    (moved : s.loop (.readStage events) input = some after) : Turned s input after := by
  cases input with
  | read exit =>
      rcases Option.some.inj moved with rfl
      split
      · rename_i attempts
        exact .reads at_ attempts.1 attempts.2.2
      · refine .goes (by simp [at_]) (fun _ => ⟨nofun, fun same => ?_⟩) (fun _ _ => rfl)
          (fun _ _ _ => rfl)
        rw [at_, Pc.rdhupStage.inj same]
  | none | flushed | wrote => cases moved

theorem rdhup_stage_turned {events : Events} (at_ : s.pc = .rdhupStage events)
    (moved : s.loop (.rdhupStage events) input = some after) : Turned s input after := by
  cases input with
  | none =>
      rcases Option.some.inj moved with rfl
      split
      · rename_i reported
        exact .drops at_ reported
      · exact .goes (by simp [at_]) (fun _ => ⟨nofun, nofun⟩) (fun _ _ => rfl)
          (fun _ _ _ => rfl)
  | read | flushed | wrote => cases moved

theorem write_flush_turned {turn : Turn} (at_ : s.pc = .writeFlush turn)
    (moved : s.loop (.writeFlush turn) input = some after) : Turned s input after := by
  cases input with
  | flushed now =>
      simp only [PlainIo.loop] at moved
      split at moved
      · rename_i empty
        cases moved
        refine .goes ?_ ?_ (fun some_ => absurd empty some_) (fun _ _ _ => ?_)
        · rw [at_]
          cases turn <;> exact ⟨nofun, nofun, nofun⟩
        · cases turn <;> exact fun _ => ⟨nofun, nofun⟩
        · cases turn <;> rfl
      · rename_i op ops listed
        cases moved
        exact .flushes at_ listed
  | none | read | wrote => cases moved

theorem write_stage_turned {epollout : Bool} (at_ : s.pc = .writeStage epollout)
    (moved : s.loop (.writeStage epollout) input = some after) : Turned s input after := by
  cases input with
  | none =>
      rcases Option.some.inj moved with rfl
      refine .goes ?_ ?_ ?_ ?_
      · rw [at_]
        refine ⟨nofun, nofun, ?_⟩
        split <;> nofun
      · split <;> exact fun _ => ⟨nofun, nofun⟩
      · rw [at_]
        exact fun _ flushes => absurd flushes Bool.false_ne_true
      · intro _ idle _
        rw [idle]
        cases epollout <;> rfl
  | read | flushed | wrote => cases moved

theorem direct_write_turned {turn : Turn} (at_ : s.pc = .directWrite turn)
    (moved : s.loop (.directWrite turn) input = some after) : Turned s input after := by
  cases input with
  | wrote now exit =>
      simp only [PlainIo.loop] at moved
      split at moved
      · rename_i able
        split at moved
        · rename_i wrote
          cases moved
          exact .writes at_ rfl able.2 wrote
        · cases moved
      · rename_i shut
        cases moved
        refine .goes ?_ ?_ ?_ (fun open_ _ _ => absurd ⟨open_.1, open_.2.2⟩ shut)
        · rw [at_]
          cases turn <;> exact ⟨nofun, nofun, nofun⟩
        · cases turn <;> exact fun _ => ⟨nofun, nofun⟩
        · rw [at_]
          exact fun _ flushes => absurd flushes Bool.false_ne_true
  | none | read | flushed => cases moved

theorem clean_write_turned (at_ : s.pc = .cleanWrite)
    (moved : s.loop .cleanWrite input = some after) : Turned s input after := by
  cases input with
  | none =>
      simp only [PlainIo.loop] at moved
      split at moved
      · cases moved
        refine .goes ?_ (fun _ => ⟨nofun, nofun⟩) ?_ ?_
        · rw [at_]
          exact ⟨nofun, nofun, nofun⟩
        · rw [at_]
          exact fun _ flushes => absurd flushes Bool.false_ne_true
        · rw [at_]
          exact fun _ _ empties => absurd empties Bool.false_ne_true
      · rename_i op ops listed
        cases moved
        exact .cleans at_ listed
  | read | flushed | wrote => cases moved

theorem get_event_turned (at_ : s.pc = .getEvent)
    (moved : s.loop .getEvent input = some after) : Turned s input after := by
  cases input with
  | none =>
      simp only [PlainIo.loop] at moved
      split at moved
      · rename_i mask asked
        split at moved
        · cases moved
          exact .modifies at_ asked
        · rename_i unchanged
          cases moved
          refine .ends at_ (fun _ listed => eq_false_of_ne_true fun changed => unchanged ?_)
          exact Bool.and_eq_true_iff.mpr ⟨changed, listed⟩
      · rename_i nothing
        cases moved
        exact .ends at_ (fun some_ => absurd nothing some_)
  | read | flushed | wrote => cases moved

theorem loop_cases (moved : s.loop s.pc input = some after) : Turned s input after := by
  cases at_ : s.pc with
  | waiting =>
      rw [at_] at moved
      cases input <;> cases moved
  | readStage events => exact read_stage_turned at_ (at_ ▸ moved)
  | rdhupStage events => exact rdhup_stage_turned at_ (at_ ▸ moved)
  | writeFlush turn => exact write_flush_turned at_ (at_ ▸ moved)
  | writeStage epollout => exact write_stage_turned at_ (at_ ▸ moved)
  | directWrite turn => exact direct_write_turned at_ (at_ ▸ moved)
  | writableStage =>
      rw [at_] at moved
      cases input with
      | none =>
          rcases Option.some.inj moved with rfl
          refine .goes ?_ ?_ ?_ ?_
          · rw [at_]
            refine ⟨nofun, nofun, ?_⟩
            split <;> nofun
          · split <;> exact fun _ => ⟨nofun, nofun⟩
          · rw [at_]
            exact fun _ flushes => absurd flushes Bool.false_ne_true
          · rw [at_]
            exact fun _ _ empties => absurd empties Bool.false_ne_true
      | read | flushed | wrote => cases moved
  | cleanWrite => exact clean_write_turned at_ (at_ ▸ moved)
  | getEvent => exact get_event_turned at_ (at_ ▸ moved)

theorem turned_step (turned : Turned s input after) : LoopStep s after := by
  cases turned with
  | @reads events _ at_ reported readable =>
      have went : LoopStep s { s with pc := .rdhupStage events } := goto_step (fun _ => rfl)
      exact loop_step_trans went (read_ended_step _ readable)
  | drops at_ reported =>
      have falls : Falls s.flags { s.flags with readable := false } :=
        ⟨nofun, id, id, fun _ => rfl⟩
      exact ⟨rfl, rfl, rfl, fun valid => ⟨valid, rfl⟩, id, falls,
        fun some_ => ⟨some_, fun _ => rfl⟩⟩
  | goes inside follows flushes empties =>
      exact ⟨rfl, rfl, rfl, fun valid => ⟨valid, rfl⟩, id, falls_refl _,
        fun some_ => ⟨some_, flushes some_⟩⟩
  | flushes at_ listed | cleans at_ listed =>
      refine ⟨rfl, rfl, rfl, fun valid => ⟨valid, rfl⟩, id, falls_refl _, fun _ => ⟨?_, id⟩⟩
      rw [listed]
      exact List.cons_ne_nil _ _
  | writes at_ given writable wrote =>
      refine loop_step_trans ?_ (write_ended_step _)
      refine ⟨rfl, rfl, rfl, fun valid => ⟨valid, rfl⟩, id, falls_refl _, fun some_ => ⟨some_, ?_⟩⟩
      rw [at_]
      nofun
  | modifies at_ asked | ends at_ same =>
      refine ⟨rfl, rfl, rfl, fun valid => ⟨valid, rfl⟩, id, falls_refl _, fun some_ => ⟨some_, ?_⟩⟩
      rw [at_]
      nofun

theorem turned_inside (turned : Turned s input after) (other : s.pc ≠ .getEvent) :
    s.pc ≠ .waiting ∧ after.pc ≠ .waiting ∧ after.mask = s.mask := by
  cases turned with
  | reads at_ reported readable =>
      rw [(read_ended_pc _).1, (read_ended_pc _).2, at_]
      exact ⟨nofun, nofun, rfl⟩
  | drops at_ reported =>
      rw [at_]
      exact ⟨nofun, nofun, rfl⟩
  | goes inside follows flushes empties => exact ⟨inside.1, inside.2.2, rfl⟩
  | flushes at_ listed | cleans at_ listed =>
      change s.pc ≠ .waiting ∧ s.pc ≠ .waiting ∧ s.mask = s.mask
      rw [at_]
      exact ⟨nofun, nofun, rfl⟩
  | @writes turn _ _ at_ given writable wrote =>
      rw [(write_ended_pc _).1, (write_ended_pc _).2, at_]
      cases turn <;> exact ⟨nofun, nofun, rfl⟩
  | modifies at_ asked | ends at_ same => exact absurd at_ other

section Masks

def PlainIo.reference (s : PlainIo ω θ) : Flags := if s.pc = .waiting then s.flags else s.before

structure Masked (s : PlainIo ω θ) : Prop where
  falls : s.pc ≠ .waiting → Falls s.before s.flags
  mask : s.listed = true → ∀ mask, s.reference.getEvent = some mask → s.mask = mask

theorem masked_frame (masked : Masked s) (pc : after.pc = s.pc) (flags : after.flags = s.flags)
    (before : after.before = s.before) (mask : after.mask = s.mask)
    (listed : after.listed = true → s.listed = true) : Masked after := by
  have reference : after.reference = s.reference := by
    rw [PlainIo.reference, PlainIo.reference, pc, flags, before]
  refine ⟨?_, fun now asked => ?_⟩
  · rw [pc, flags, before]
    exact masked.falls
  · rw [reference, mask]
    exact masked.mask (listed now) asked

theorem masked_sample (masked : Masked s) (idle : s.pc = .waiting) (begun : after.pc ≠ .waiting)
    (flags : after.flags = s.flags) (before : after.before = s.flags) (mask : after.mask = s.mask)
    (listed : after.listed = s.listed) : Masked after := by
  refine ⟨fun _ => ?_, fun now asked got => ?_⟩
  · rw [flags, before]
    exact falls_refl _
  · rw [PlainIo.reference, if_neg begun, before] at got
    rw [mask]
    apply masked.mask (listed ▸ now) asked
    rwa [PlainIo.reference, if_pos idle]

theorem loop_masked (masked : Masked s) (moved : s.loop s.pc input = some after) :
    Masked after := by
  have turned := loop_cases moved
  by_cases at_ : s.pc = .getEvent
  · have inside : s.pc ≠ .waiting := by
      rw [at_]
      nofun
    cases turned with
    | modifies _ asked =>
        exact ⟨fun outside => absurd rfl outside,
          fun _ mask got => Option.some.inj (asked.symm.trans got)⟩
    | ends _ same =>
        refine ⟨fun outside => absurd rfl outside, fun listed mask got => ?_⟩
        change s.flags.getEvent = some mask at got
        -- `EPOLL_CTL_MOD` is left out for a status that is the sampled one.
        have equal := falls_same (masked.falls inside) (same (by rw [got]; nofun) listed)
        apply masked.mask listed mask
        rwa [PlainIo.reference, if_neg inside, ← equal]
    | goes other => exact absurd at_ other.2.1
    | reads here | drops here | flushes here | writes here | cleans here =>
        exact nomatch here.symm.trans at_
  · obtain ⟨inside, still, mask⟩ := turned_inside turned at_
    have step := turned_step turned
    refine ⟨fun _ => ?_, fun listed asked got => ?_⟩
    · rw [step.before]
      exact falls_trans (masked.falls inside) step.falls
    · rw [PlainIo.reference, if_neg still, step.before] at got
      rw [mask]
      apply masked.mask (step.listed listed) asked
      rwa [PlainIo.reference, if_neg inside]

variable [DecidableEq θ]

structure Aside (s after : PlainIo ω θ) : Prop where
  pc : after.pc = s.pc
  flags : after.flags = s.flags
  before : after.before = s.before
  mask : after.mask = s.mask
  listed : after.listed = s.listed
  valid : after.valid = s.valid
  managed : after.managed = s.managed
  buffered : after.buffered = s.buffered

theorem advance_aside {t : θ} {pc : RegisterPc ω} (moved : s.advance t pc = some after) :
    Aside s after := by
  cases pc <;> cases moved <;> exact ⟨rfl, rfl, rfl, rfl, rfl, rfl, rfl, rfl⟩

theorem register_aside {t : θ} {op : ω} (moved : run s (.register t op) = some after) :
    s.threads t = .idle ∧ after = s.goto t (.checkValid op) := by
  simp only [run] at moved
  split at moved
  · rename_i idle
    cases moved
    exact ⟨idle, rfl⟩
  · cases moved

theorem run_masked {move : Move ω θ} (masked : Masked s) (moved : run s move = some after) :
    Masked after := by
  cases move with
  | report events =>
      simp only [run] at moved
      split at moved
      · rename_i reports
        cases moved
        exact masked_sample masked reports.1 nofun rfl rfl rfl rfl
      · cases moved
  | instantWrite =>
      simp only [run] at moved
      split at moved
      · rename_i ready
        cases moved
        exact masked_sample masked ready.1 nofun rfl rfl rfl rfl
      · cases moved
  | loop input => exact loop_masked masked moved
  | register t op =>
      rw [(register_aside moved).2]
      exact masked_frame masked rfl rfl rfl rfl id
  | advance t =>
      have aside := advance_aside moved
      exact masked_frame masked aside.pc aside.flags aside.before aside.mask
        (fun listed => aside.listed ▸ listed)
  | close =>
      cases moved
      exact masked_frame masked rfl rfl rfl rfl id
  | removeIo =>
      cases moved
      exact masked_frame masked rfl rfl rfl rfl nofun

theorem reachable_masked (reached : Reachable (plainSystem ω θ) s) : Masked s := by
  induction reached with
  | start begins =>
      obtain ⟨flags, mask, _, asked, rfl⟩ := begins
      refine ⟨fun outside => absurd rfl outside, fun _ other got => ?_⟩
      exact Option.some.inj (asked.symm.trans got)
  | next _ _ moves ih => exact run_masked ih moves

/-- The kernel has the mask of `get_event` whenever the loop thread is not busy with the
io, whatever the flags went through. -/
theorem plain_mask_current (reached : Reachable (plainSystem ω θ) s) (idle : s.pc = .waiting)
    (listed : s.listed = true) {mask : Mask} (asked : s.flags.getEvent = some mask) :
    s.mask = mask := by
  apply (reachable_masked reached).mask listed mask
  rwa [PlainIo.reference, if_pos idle]

end Masks

end Npoller.PlainEvents
