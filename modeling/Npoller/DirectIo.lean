import Npoller.IoBuffer

/-!
The system-call loops of `io/io.cpp`, `io::direct_read` and `io::direct_write`.
The kernel is a list of results, one for each call a loop makes; a loop that
outlives the list gets `EAGAIN`. A result never exceeds the requested count. The
`int` that `read` and `write` return holds every count, which is at most a block;
`write_sum` is an `unsigned int` and wraps.
-/

namespace Npoller.DirectIo

open SizeT MemContainer IoBuffer

/-- `errno` after a failed call. `EWOULDBLOCK` is `EAGAIN`. -/
inductive Errno where
  | eagain
  | eintr
  | einval
  | ebadf
  | epipe
  | other
  deriving DecidableEq, Repr

inductive ReadResult where
  | bytes (first : Byte) (more : List Byte)
  | eof
  | failed (errno : Errno)

/-- `accepted more` takes `more + 1` bytes, or all requested ones; `zero` is a
return value of 0 with the `errno` an earlier call left. -/
inductive WriteResult where
  | accepted (more : Nat)
  | zero (errno : Errno)
  | failed (errno : Errno)

inductive Exit where
  | again
  | interrupted
  | invalid
  | badFd
  | brokenPipe
  | eof
  | drained
  | failed
  deriving DecidableEq, Repr

def maxRetryTimes : Nat := 3

/-- `UINT_MAX + 1` -/
def uintSize : Nat := 4294967296

def Errno.exit : Errno → Exit
  | .eagain => .again
  | .eintr => .interrupted
  | .einval => .invalid
  | .ebadf => .badFd
  | .epipe => .brokenPipe
  | .other => .failed

/-- `EINTR` goes on with the loop unless it is the last of `max_retry_times`. -/
def Retries (errno : Errno) (retryTimes : Nat) : Prop :=
  errno = .eintr ∧ retryTimes + 1 ≠ maxRetryTimes

instance (errno : Errno) (retryTimes : Nat) : Decidable (Retries errno retryTimes) :=
  inferInstanceAs (Decidable (_ ∧ _))

section DirectRead

structure Target where
  block : BlockId
  room : Nat
  buf : Buf

/-- The free bytes behind `end`, in a new block when the last one is full. -/
def readTarget (s : Buf) : Except Fault Target :=
  if s.cb.endPos < s.cb.buffer.length * defaultSize then do
    let block ← blockAt s.cb.buffer (s.cb.endPos / defaultSize)
    .ok ⟨block, defaultSize - s.cb.endPos % defaultSize, s⟩
  else do
    let got ← s.mem.get
    .ok ⟨got.1, defaultSize, ⟨got.2, { s.cb with buffer := s.cb.buffer ++ [got.1] }⟩⟩

def deliver (block : BlockId) : Nat → List Byte → Mem → Mem
  | _, [], mem => mem
  | offset, byte :: bytes, mem => deliver block (offset + 1) bytes (mem.write block offset byte)

def received (target : Target) (bytes : List Byte) : Buf :=
  ⟨deliver target.block (target.buf.cb.endPos % defaultSize) bytes target.buf.mem,
    target.buf.cb.buffer,
    if target.buf.cb.beginPos = npos then 0 else target.buf.cb.beginPos,
    target.buf.cb.endPos + bytes.length⟩

structure ReadDone where
  buf : Buf
  delivered : List Byte
  exit : Exit

def directReadLoop : List ReadResult → Nat → Buf → Except Fault ReadDone
  | [], _, s => do
      let target ← readTarget s
      .ok ⟨target.buf, [], .again⟩
  | .bytes first more :: rest, retryTimes, s => do
      let target ← readTarget s
      let bytes := (first :: more).take target.room
      let done ← directReadLoop rest retryTimes (received target bytes)
      .ok { done with delivered := bytes ++ done.delivered }
  | .eof :: _, _, s => do
      let target ← readTarget s
      .ok ⟨target.buf, [], .eof⟩
  | .failed errno :: rest, retryTimes, s => do
      let target ← readTarget s
      if Retries errno retryTimes then directReadLoop rest (retryTimes + 1) target.buf
      else .ok ⟨target.buf, [], errno.exit⟩

/-- `direct_read` on a valid and readable io, before the flags are updated. -/
def fillBuffer (results : List ReadResult) (s : Buf) : Except Fault ReadDone := do
  let done ← directReadLoop results 0 s
  let cb := done.buf.cb
  .ok { done with buf := { done.buf with cb :=
    if cb.beginPos = npos ∧ cb.endPos > 0 then { cb with endPos := 0 } else cb } }

end DirectRead

section DirectWrite

structure Request where
  block : BlockId
  count : Nat

def Unsent (cb : ControlBlock) : Prop :=
  cb.beginPos ≠ npos ∧ cb.endPos ≠ 0 ∧ cb.beginPos ≠ cb.endPos

instance (cb : ControlBlock) : Decidable (Unsent cb) :=
  inferInstanceAs (Decidable (_ ∧ _ ∧ _))

/-- `can_write_bytes`: from `begin` to the end of its block or of the content. -/
def canWriteBytes (cb : ControlBlock) : Nat :=
  if cb.endPos / defaultSize = cb.beginPos / defaultSize then wsub cb.endPos cb.beginPos
  else defaultSize - cb.beginPos % defaultSize

/-- What the next `write(2)` is handed: the start of the block `begin` lies in. -/
def writeRequest (cb : ControlBlock) : Except Fault (Option Request) :=
  if Unsent cb then do
    let block ← blockAt cb.buffer (cb.beginPos / defaultSize)
    .ok (some ⟨block, canWriteBytes cb⟩)
  else .ok none

structure WriteDone where
  cb : ControlBlock
  accepted : List Byte
  writeSum : Nat
  exit : Exit

/-- The bytes from the pointer on that the kernel takes. -/
def taken (mem : Mem) (block : BlockId) (count : Nat) : List Byte :=
  (List.range count).map (mem.cells block)

def directWriteLoop (mem : Mem) :
    List WriteResult → Nat → Nat → ControlBlock → Except Fault WriteDone
  | [], _, writeSum, cb => do
      match ← writeRequest cb with
      | none => .ok ⟨cb, [], writeSum, .drained⟩
      | some _ => .ok ⟨cb, [], writeSum, .again⟩
  | result :: rest, retryTimes, writeSum, cb => do
      match ← writeRequest cb with
      | none => .ok ⟨cb, [], writeSum, .drained⟩
      | some request =>
          match result with
          | .accepted more => do
              let count := min (more + 1) request.count
              let done ← directWriteLoop mem rest retryTimes ((writeSum + count) % uintSize)
                { cb with beginPos := cb.beginPos + count }
              .ok { done with accepted := taken mem request.block count ++ done.accepted }
          | .zero errno | .failed errno =>
              if Retries errno retryTimes then
                directWriteLoop mem rest (retryTimes + 1) writeSum cb
              else .ok ⟨cb, [], writeSum, errno.exit⟩

theorem write_loop_fails {mem : Mem} {cb : ControlBlock} {fault : Fault}
    (request : writeRequest cb = .error fault) (results : List WriteResult)
    (retryTimes writeSum : Nat) :
    directWriteLoop mem results retryTimes writeSum cb = .error fault := by
  cases results with
  | nil =>
      rw [directWriteLoop, request]
      rfl
  | cons result rest =>
      unfold directWriteLoop
      rw [request]
      rfl

theorem write_loop_sent {mem : Mem} {cb : ControlBlock} (sent : ¬Unsent cb)
    (results : List WriteResult) (retryTimes writeSum : Nat) :
    directWriteLoop mem results retryTimes writeSum cb = .ok ⟨cb, [], writeSum, .drained⟩ := by
  have request : writeRequest cb = .ok none := if_neg sent
  cases results with
  | nil =>
      rw [directWriteLoop, request]
      rfl
  | cons result rest =>
      unfold directWriteLoop
      rw [request]
      rfl

structure Drained where
  buf : Buf
  accepted : List Byte
  writeSum : Nat
  exit : Exit

/-- `direct_write` on a valid and writable io, before the flags and `have_write`
are updated. -/
def drainBuffer (results : List WriteResult) (s : Buf) : Except Fault Drained := do
  let done ← directWriteLoop s.mem results 0 0 s.cb
  let cb := if done.cb.beginPos = done.cb.endPos then done.cb.emptied else done.cb
  let buf ← shrinkSize ⟨s.mem, cb⟩
  .ok ⟨buf, done.accepted, done.writeSum, done.exit⟩

end DirectWrite

end Npoller.DirectIo
