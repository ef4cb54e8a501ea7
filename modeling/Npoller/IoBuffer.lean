import Npoller.MemContainer

/-!
`iobuffer/io_buffer.h` and the pushes, pops and single-byte accesses of
`iobuffer/io_buffer.cpp`. A control block is a deque of block pointers and two
absolute byte positions into the concatenation of its blocks; `begin = (size_t)
-1` marks the empty buffer. Differences and sums with a caller's size wrap as
`size_t`; a position itself never exceeds the bytes of the deque's blocks, so
`++` and `+= DEFAULT_SIZE` on it are plain. Copy loops keep the block pointer
they have loaded, as the source does.
-/

namespace Npoller.IoBuffer

open Outcome SizeT MemContainer

/-- `std::deque<char *> _buffer; size_t begin; size_t end;` -/
structure ControlBlock where
  buffer : List BlockId
  beginPos : Nat
  endPos : Nat

structure Buf where
  mem : Mem
  cb : ControlBlock

/-- A readable array: no C++ object has more than `PTRDIFF_MAX` bytes. -/
structure Source where
  bytes : List Byte
  bounded : bytes.length < 9223372036854775808

def ControlBlock.emptied (cb : ControlBlock) : ControlBlock :=
  { cb with beginPos := npos, endPos := 0 }

def ControlBlock.fresh : ControlBlock := ⟨[], npos, 0⟩

def blockAt (buffer : List BlockId) (index : Nat) : Except Fault BlockId :=
  match buffer[index]? with
  | some block => .ok block
  | none => .error .outOfRange

def check (cb : ControlBlock) : Except Fault ControlBlock :=
  if cb.beginPos = npos ∨ cb.endPos = 0 ∨ cb.beginPos ≥ cb.endPos then .ok cb.emptied
  else if wsub cb.endPos cb.beginPos > cb.buffer.length * defaultSize then
    .error (.logicError "io_buffer overflow!")
  else .ok cb

/-- `__size`, which `size()` returns. -/
def size (cb : ControlBlock) : Nat :=
  if cb.beginPos = npos ∨ cb.endPos = 0 then 0 else wsub cb.endPos cb.beginPos

section Shrink

def releaseAll : List BlockId → Mem → Mem
  | [], mem => mem
  | block :: rest, mem => releaseAll rest (mem.push block)

/-- `while ((begin / DEFAULT_SIZE) > 0)`: drop whole blocks in front of `begin`. -/
def dropFront : List BlockId → Nat → Nat → Mem → Except Fault Buf
  | [], beginPos, endPos, mem =>
      if beginPos / defaultSize > 0 then .error .outOfRange else .ok ⟨mem, [], beginPos, endPos⟩
  | block :: rest, beginPos, endPos, mem =>
      if beginPos / defaultSize > 0 then
        dropFront rest (wsub beginPos defaultSize) (wsub endPos defaultSize) (mem.push block)
      else .ok ⟨mem, block :: rest, beginPos, endPos⟩

/-- `while (_buffer.size() > (end / DEFAULT_SIZE) + 1)`: drop spare blocks behind
`end`. The count of blocks bounds the iterations. -/
def dropBack (endPos : Nat) : Nat → List BlockId → Mem → List BlockId × Mem
  | 0, buffer, mem => (buffer, mem)
  | count + 1, buffer, mem =>
      if buffer.length > endPos / defaultSize + 1 then
        match buffer.getLast? with
        | some block => dropBack endPos count buffer.dropLast (mem.push block)
        | none => (buffer, mem)
      else (buffer, mem)

/-- `__shrink_size`, which `shrink_size` calls. -/
def shrinkSize (s : Buf) : Except Fault Buf := do
  let cb ← check s.cb
  if cb.beginPos = npos then
    .ok ⟨releaseAll cb.buffer s.mem, { cb with buffer := [] }⟩
  else
    let front ← dropFront cb.buffer cb.beginPos cb.endPos s.mem
    let back := dropBack front.cb.endPos front.cb.buffer.length front.cb.buffer front.mem
    .ok ⟨back.2, { front.cb with buffer := back.1 }⟩

end Shrink

section Loops

theorem grow_decreases {need blocks : Nat} (short : need > blocks * defaultSize) :
    need - (blocks + 1) * defaultSize < need - blocks * defaultSize := by
  simp only [defaultSize] at *
  omega

/-- `while (need > _buffer.size() * DEFAULT_SIZE) _buffer.push_back(mem.get());` -/
def growBack (need : Nat) (buffer : List BlockId) (mem : Mem) :
    Except Fault (List BlockId × Mem) :=
  if need > buffer.length * defaultSize then do
    let got ← mem.get
    growBack need (buffer ++ [got.1]) got.2
  else .ok (buffer, mem)
termination_by need - buffer.length * defaultSize
decreasing_by
  rename_i short
  simpa using grow_decreases short

/-- `while (need > _buffer.size() * DEFAULT_SIZE) _buffer.push_front(mem.get());` -/
def growFront (need : Nat) (buffer : List BlockId) (mem : Mem) :
    Except Fault (List BlockId × Mem) :=
  if need > buffer.length * defaultSize then do
    let got ← mem.get
    growFront need (got.1 :: buffer) got.2
  else .ok (buffer, mem)
termination_by need - buffer.length * defaultSize
decreasing_by
  rename_i short
  simpa using grow_decreases short

/-- `while (size > begin)`: blocks are put in front and both positions move. -/
def roomInFront (size : Nat) (cb : ControlBlock) (mem : Mem) : Except Fault Buf :=
  if size > cb.beginPos then do
    let got ← mem.get
    roomInFront size
      ⟨got.1 :: cb.buffer, cb.beginPos + defaultSize, cb.endPos + defaultSize⟩ got.2
  else .ok ⟨mem, cb⟩
termination_by size - cb.beginPos
decreasing_by
  simp only [defaultSize]
  omega

/-- The pointer a copy loop uses at position `pos`: reloaded at a block start. -/
def reload (buffer : List BlockId) (pos : Nat) (block : BlockId) : Except Fault BlockId :=
  if pos % defaultSize = 0 then blockAt buffer (pos / defaultSize) else .ok block

def copyIn (buffer : List BlockId) : List Byte → Nat → BlockId → Mem → Except Fault Mem
  | [], _, _, mem => .ok mem
  | byte :: rest, pos, block, mem => do
      let block ← reload buffer pos block
      copyIn buffer rest (pos + 1) block (mem.write block (pos % defaultSize) byte)

def copyOut (buffer : List BlockId) (mem : Mem) :
    Nat → Nat → BlockId → Except Fault (List Byte)
  | 0, _, _ => .ok []
  | count + 1, pos, block => do
      let block ← reload buffer pos block
      let rest ← copyOut buffer mem count (pos + 1) block
      .ok (mem.cells block (pos % defaultSize) :: rest)

end Loops

section Operations

/-- `src == NULL` is `none`. -/
def pushBackN (src : Option Source) (s : Buf) : Except Fault Buf := do
  let cb ← check s.cb
  match src with
  | none => .ok ⟨s.mem, cb⟩
  | some src =>
      if src.bytes.length = 0 then .ok ⟨s.mem, cb⟩
      else
        let cb := if cb.beginPos = npos then { cb with beginPos := 0, endPos := 0 } else cb
        let grown ← growBack (wadd src.bytes.length cb.endPos) cb.buffer s.mem
        let block ← blockAt grown.1 (cb.endPos / defaultSize)
        let mem ← copyIn grown.1 src.bytes cb.endPos block grown.2
        .ok ⟨mem, grown.1, cb.beginPos, wadd cb.endPos src.bytes.length⟩

/-- The first half of `push_front_n`: blocks are added in front until `count`
bytes fit there, and `begin` is moved to where they will start. -/
def makeRoom (count : Nat) (cb : ControlBlock) (mem : Mem) : Except Fault Buf :=
  if cb.beginPos = npos then do
    let grown ← growFront count cb.buffer mem
    .ok ⟨grown.2, grown.1, 0, wadd 0 count⟩
  else do
    let room ← roomInFront count cb mem
    .ok { room with cb := { room.cb with beginPos := wsub room.cb.beginPos count } }

def pushFrontN (src : Option Source) (s : Buf) : Except Fault Buf :=
  match src with
  | none => .ok s
  | some src =>
      if src.bytes.length = 0 then .ok s
      else do
        let cb ← check s.cb
        let room ← makeRoom src.bytes.length cb s.mem
        let block ← blockAt room.cb.buffer (room.cb.beginPos / defaultSize)
        let mem ← copyIn room.cb.buffer src.bytes room.cb.beginPos block room.mem
        .ok { room with mem }

/-- `pop_back_n(size_t size)` -/
def popBackN (size : Nat) (s : Buf) : Except Fault Buf := do
  let cb ← check s.cb
  if cb.beginPos = npos then .ok ⟨s.mem, cb⟩
  else
    let cb := if size > wsub cb.endPos cb.beginPos then cb.emptied
      else { cb with endPos := wsub cb.endPos size }
    let cb ← check cb
    shrinkSize ⟨s.mem, cb⟩

/-- `pop_front_n(size_t size)` -/
def popFrontN (size : Nat) (s : Buf) : Except Fault Buf := do
  let cb ← check s.cb
  if cb.beginPos = npos then .ok ⟨s.mem, cb⟩
  else
    let cb := if size > wsub cb.endPos cb.beginPos then cb.emptied
      else { cb with beginPos := wadd cb.beginPos size }
    shrinkSize ⟨s.mem, cb⟩

/-- What a copying pop wrote to `dest`, what it returned, and the buffer after it. -/
structure Popped where
  dest : List Byte
  count : Nat
  buf : Buf

/-- The common end of the copying pops: `begin >= end` empties, then shrink. -/
def closePop (cb : ControlBlock) (mem : Mem) : Except Fault Buf :=
  shrinkSize ⟨mem, if cb.beginPos ≥ cb.endPos then cb.emptied else cb⟩

/-- `pop_back_n(char *dest, size_t size)` -/
def popBackInto (size : Nat) (s : Buf) : Except Fault Popped :=
  let b := s.cb.beginPos
  let e := s.cb.endPos
  if b = npos ∧ b ≥ e then .ok ⟨[], 0, ⟨s.mem, s.cb.emptied⟩⟩
  else
    let n := if wsub e b ≥ size then wsub e size else 0
    let size := if wsub e b ≥ size then size else wsub e b
    if n ≥ wsub e b then .ok ⟨[], 0, s⟩
    else do
      let size := if wsub (wadd (wadd b n) size) 1 ≥ e then wsub e (wadd b n) else size
      let block ← blockAt s.cb.buffer (wadd b n / defaultSize)
      let dest ← copyOut s.cb.buffer s.mem size (wadd b n) block
      let after ← closePop { s.cb with endPos := wsub e size } s.mem
      .ok ⟨dest, size, after⟩

/-- `pop_front_n(char *dest, size_t size)` -/
def popFrontInto (size : Nat) (s : Buf) : Except Fault Popped :=
  let b := s.cb.beginPos
  let e := s.cb.endPos
  if b = npos ∧ b ≥ e then .ok ⟨[], 0, ⟨s.mem, s.cb.emptied⟩⟩
  else do
    let size := if wsub (wadd b size) 1 ≥ e then wsub e b else size
    let block ← blockAt s.cb.buffer (b / defaultSize)
    let dest ← copyOut s.cb.buffer s.mem size b block
    let after ← closePop { s.cb with beginPos := wadd b size } s.mem
    .ok ⟨dest, size, after⟩

/-- `char get(size_t n)` -/
def getByte (n : Nat) (s : Buf) : Except Fault Byte :=
  if n ≥ wsub s.cb.endPos s.cb.beginPos ∨ s.cb.beginPos = npos then
    .error (.logicError "index out of bounds!")
  else do
    let block ← blockAt s.cb.buffer (wadd s.cb.beginPos n / defaultSize)
    .ok (s.mem.cells block (wadd s.cb.beginPos n % defaultSize))

end Operations

end Npoller.IoBuffer
