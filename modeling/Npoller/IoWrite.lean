import Npoller.DirectIoSpec

/-!
The write side of `io/io.h` and `io/io.cpp`: registration, `write_flush`,
`direct_write` with its flags, and `process_write`. An operation's `process` is
any function on the buffer, as it is virtual in `io/task.h`. `have_write` is a
`size_t` and wraps.
-/

namespace Npoller.IoWrite

open Outcome SizeT MemContainer IoBuffer IoBufferSpec DirectIo DirectIoSpec

inductive OperationType where
  | read
  | write
  deriving DecidableEq, Repr

structure IoOp where
  type : OperationType
  ioId : Int
  size : Nat
  process : Buf → Except Fault (Buf × Bool)

def unspecifiedId : Int := -1

/-- `managed` is `manager != nullptr`. -/
structure Io where
  fd : Int
  valid : Bool
  managed : Bool
  readable : Bool
  writable : Bool
  writeBusy : Bool
  haveWrite : Nat
  writeBuffer : ControlBlock
  readList : List IoOp
  writeList : List IoOp
  waitWriteList : List IoOp

def Io.markInvalid (io : Io) : Io :=
  { io with managed := false, valid := false, readable := false, writable := false }

/-- What `do_register` returns, whether it calls `add_write_instant_task`, and
the io after it. -/
structure Registered where
  accepted : Bool
  instant : Bool
  io : Io

def doRegister (op : IoOp) (io : Io) : Registered :=
  if io.valid = false ∨ io.managed = false then ⟨false, false, io⟩
  else if op.ioId ≠ unspecifiedId ∧ op.ioId ≠ io.fd then ⟨false, false, io⟩
  else
    match op.type with
    | .read =>
        if io.readable = false then ⟨false, false, io⟩
        else ⟨true, false, { io with readList := io.readList ++ [op] }⟩
    | .write =>
        if io.writable = false then ⟨false, false, io⟩
        else ⟨true, !io.writeBusy, { io with writeList := io.writeList ++ [op] }⟩

/-- A `false` from `process` is logged and nothing else. -/
def flushOps : List IoOp → Buf → Except Fault Buf
  | [], s => .ok s
  | op :: rest, s => do
      let done ← op.process s
      flushOps rest done.1

structure IoBuf where
  mem : Mem
  io : Io

def IoBuf.buf (s : IoBuf) : Buf := ⟨s.mem, s.io.writeBuffer⟩

def writeFlush (s : IoBuf) : Except Fault IoBuf := do
  let buf ← flushOps s.io.writeList s.buf
  .ok ⟨buf.mem, { s.io with
    writeBuffer := buf.cb
    writeList := []
    waitWriteList := s.io.waitWriteList ++ s.io.writeList }⟩

/-- The flags the write loop sets before it ends. -/
def Io.ended (io : Io) : Exit → Io
  | .again => { io with writeBusy := true }
  | .invalid | .brokenPipe => { io with writable := false }
  | .badFd => io.markInvalid
  | .interrupted | .eof | .drained | .failed => io

structure Wrote where
  after : IoBuf
  accepted : List Byte

def Open (io : Io) : Prop := io.valid = true ∧ io.writable = true

instance (io : Io) : Decidable (Open io) := inferInstanceAs (Decidable (_ ∧ _))

def directWrite (results : List WriteResult) (s : IoBuf) : Except Fault Wrote :=
  if ¬Open s.io then .ok ⟨s, []⟩
  else do
    let done ← drainBuffer results s.buf
    let io := { s.io with
      writeBuffer := done.buf.cb
      haveWrite := wadd s.io.haveWrite done.writeSum }
    .ok ⟨⟨done.buf.mem, io.ended done.exit⟩, done.accepted⟩

/-- The credit left, the operations notified `Done` in order, and those still waiting. -/
structure Completed where
  haveWrite : Nat
  notified : List IoOp
  waiting : List IoOp

def completeOps : Nat → List IoOp → Completed
  | haveWrite, [] => ⟨haveWrite, [], []⟩
  | haveWrite, op :: rest =>
      if haveWrite ≥ op.size then
        let later := completeOps (haveWrite - op.size) rest
        { later with notified := op :: later.notified }
      else ⟨haveWrite, [], op :: rest⟩

structure Processed where
  io : Io
  notified : List IoOp

def processWrite (io : Io) : Processed :=
  let done := completeOps io.haveWrite io.waitWriteList
  ⟨{ io with haveWrite := done.haveWrite, waitWriteList := done.waiting }, done.notified⟩

@[simp] theorem ended_have_write (io : Io) (exit : Exit) :
    (io.ended exit).haveWrite = io.haveWrite := by
  cases exit <;> rfl

@[simp] theorem ended_write_buffer (io : Io) (exit : Exit) :
    (io.ended exit).writeBuffer = io.writeBuffer := by
  cases exit <;> rfl

@[simp] theorem ended_write_list (io : Io) (exit : Exit) :
    (io.ended exit).writeList = io.writeList := by
  cases exit <;> rfl

@[simp] theorem ended_wait_write_list (io : Io) (exit : Exit) :
    (io.ended exit).waitWriteList = io.waitWriteList := by
  cases exit <;> rfl

@[simp] theorem ended_buf (mem : Mem) (io : Io) (exit : Exit) :
    (IoBuf.mk mem (io.ended exit)).buf = ⟨mem, io.writeBuffer⟩ := by
  rw [IoBuf.buf, ended_write_buffer]

/-- What one `direct_write` does to an io in any state of its flags. -/
structure Writes (rest : List BlockId) (results : List WriteResult) (s : IoBuf) (wrote : Wrote) :
    Prop where
  serves : Serves 0 rest s.buf wrote.after.buf ((content s.buf).drop wrote.accepted.length)
  reach : wrote.accepted.length ≤ (content s.buf).length
  counted : s.io.haveWrite < wordSize →
    wrote.after.io.haveWrite = wadd s.io.haveWrite (wrote.accepted.length % uintSize)
  unflushed : wrote.after.io.writeList = s.io.writeList
  waiting : wrote.after.io.waitWriteList = s.io.waitWriteList
  exact : (Open s.io → BlockStarts results s.io.writeBuffer) →
    wrote.accepted = (content s.buf).take wrote.accepted.length

theorem direct_write_spec {rest : List BlockId} {s : IoBuf} (results : List WriteResult)
    (rep : Rep s.io.writeBuffer) (owns : Owns 0 s.mem (s.io.writeBuffer.buffer ++ rest)) :
    Ends (fun _ => False) (directWrite results s) (Writes rest results s) := by
  unfold directWrite
  by_cases closed : ¬Open s.io
  · rw [if_pos closed]
    constructor
    · exact ⟨rep, owns, fun _ _ => rfl, rfl⟩
    · exact Nat.zero_le _
    · intro word
      exact (wadd_exact (show s.io.haveWrite + 0 < wordSize from word)).symm
    · rfl
    · rfl
    · exact fun _ => rfl
  · rw [if_neg closed]
    apply ends_bind (drain_buffer_spec results rep owns)
    intro done drained
    constructor
    · dsimp only
      rw [ended_buf]
      exact drained.serves
    · exact drained.reach
    · simp [drained.counted]
    · simp
    · simp
    · exact fun aligned => drained.exact (aligned (Classical.not_not.mp closed))

end Npoller.IoWrite
