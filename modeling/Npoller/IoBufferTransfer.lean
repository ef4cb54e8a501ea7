import Npoller.IoBuffer

/-!
The transfers of `iobuffer/io_buffer.cpp`: `pop_front_to_other_back_n` and
`pop_back_to_other_front_n`, each within one buffer (`self_...`) and between two
(`other_...`). When the two ends are aligned and more than two blocks move,
whole blocks change hands; the remaining bytes are copied one by one. The
pointers a byte loop holds are passed along and reloaded where the source does.
-/

namespace Npoller.IoBufferTransfer

open SizeT MemContainer IoBuffer

structure Pair where
  mem : Mem
  this : ControlBlock
  other : ControlBlock

/-- `dst_ptr[dst % DEFAULT_SIZE] = src_ptr[src % DEFAULT_SIZE]` -/
def copyByte (mem : Mem) (dstPtr : BlockId) (dst : Nat) (srcPtr : BlockId) (src : Nat) : Mem :=
  mem.write dstPtr (dst % defaultSize) (mem.cells srcPtr (src % defaultSize))

/-- The pointer for the byte in front of `pos`: reloaded when `pos` ends a block. -/
def reloadBefore (buffer : List BlockId) (pos : Nat) (block : BlockId) : Except Fault BlockId :=
  if pos % defaultSize = 0 then blockAt buffer (wsub pos 1 / defaultSize) else .ok block

/-- `((end - 1) / DEFAULT_SIZE) < (_buffer.size() - 1)`: a spare block lies behind `end`. -/
def SpareBack (cb : ControlBlock) : Prop :=
  wsub cb.endPos 1 / defaultSize < wsub cb.buffer.length 1

instance (cb : ControlBlock) : Decidable (SpareBack cb) := by
  unfold SpareBack
  infer_instance

section SelfFrontToBack

/-- `while ((first % DEFAULT_SIZE) != 0)`, which runs `count` times. -/
def selfAlignFront (firstPtr lastPtr : BlockId) : Nat → Buf → Buf
  | 0, s => s
  | count + 1, s =>
      selfAlignFront firstPtr lastPtr count
        ⟨copyByte s.mem lastPtr s.cb.endPos firstPtr s.cb.beginPos,
          s.cb.buffer, s.cb.beginPos + 1, s.cb.endPos + 1⟩

def selfBlockToBack (cb : ControlBlock) : Except Fault ControlBlock := do
  let first ← blockAt cb.buffer (cb.beginPos / defaultSize)
  if cb.endPos ≠ cb.buffer.length * defaultSize then
    let temp ← blockAt cb.buffer (cb.endPos / defaultSize)
    .ok ⟨(cb.buffer.set (cb.endPos / defaultSize) first).set (cb.beginPos / defaultSize) temp,
      cb.beginPos + defaultSize, cb.endPos + defaultSize⟩
  else if cb.beginPos ≠ 0 then
    let front ← blockAt (cb.buffer ++ [first]) 0
    .ok { cb with buffer := ((cb.buffer ++ [first]).set (cb.beginPos / defaultSize) front).tail }
  else .ok { cb with buffer := (cb.buffer ++ [first]).tail }

/-- `while (n > DEFAULT_SIZE)`; the rest of `n` is returned. -/
def selfBlocksToBack (n : Nat) (cb : ControlBlock) : Except Fault (Nat × ControlBlock) :=
  if n > defaultSize then do
    let cb ← selfBlockToBack cb
    selfBlocksToBack (n - defaultSize) cb
  else .ok (n, cb)
termination_by n
decreasing_by
  have positive := block_size_pos
  omega

def selfFrontBlocks (n : Nat) (s : Buf) : Except Fault (Nat × Buf) :=
  if wsub s.cb.endPos s.cb.beginPos % defaultSize = 0 ∧ n > 2 * defaultSize then do
    let first := s.cb.beginPos % defaultSize
    let firstPtr ← blockAt s.cb.buffer (s.cb.beginPos / defaultSize)
    let lastPtr ← blockAt s.cb.buffer (wsub s.cb.endPos 1 / defaultSize)
    let gap := if first % defaultSize = 0 then 0 else defaultSize - first
    let aligned := selfAlignFront firstPtr lastPtr gap s
    let moved ← selfBlocksToBack (wsub n gap) aligned.cb
    .ok (moved.1, ⟨aligned.mem, moved.2⟩)
  else .ok (n, s)

/-- A block to write to at `end`: an unused one from the front, or a new one. -/
def selfRoomBack (s : Buf) : Except Fault Buf :=
  if s.cb.endPos = s.cb.buffer.length * defaultSize then
    if s.cb.beginPos ≥ defaultSize then
      match s.cb.buffer with
      | [] => .error .outOfRange
      | front :: rest => .ok ⟨s.mem, rest ++ [front], wsub s.cb.beginPos defaultSize,
          wsub s.cb.endPos defaultSize⟩
    else do
      let got ← s.mem.newBlock
      .ok ⟨got.2, { s.cb with buffer := s.cb.buffer ++ [got.1] }⟩
  else .ok s

/-- `while (n > 0)` -/
def selfBytesToBack : Nat → BlockId → BlockId → Buf → Except Fault Buf
  | 0, _, _, s => .ok s
  | n + 1, firstPtr, lastPtr, s => do
      let s ← selfRoomBack s
      let lastPtr ← reload s.cb.buffer s.cb.endPos lastPtr
      let firstPtr ← reload s.cb.buffer s.cb.beginPos firstPtr
      selfBytesToBack n firstPtr lastPtr
        ⟨copyByte s.mem lastPtr s.cb.endPos firstPtr s.cb.beginPos,
          s.cb.buffer, s.cb.beginPos + 1, s.cb.endPos + 1⟩

def selfPopFrontToBackN (n : Nat) (s : Buf) : Except Fault Buf := do
  let cb ← check s.cb
  if cb.beginPos = npos ∨ n = 0 ∨ n ≥ wsub cb.endPos cb.beginPos then .ok ⟨s.mem, cb⟩
  else
    let moved ← selfFrontBlocks n ⟨s.mem, cb⟩
    let firstPtr ← blockAt moved.2.cb.buffer (moved.2.cb.beginPos / defaultSize)
    let lastPtr ← blockAt moved.2.cb.buffer (wsub moved.2.cb.endPos 1 / defaultSize)
    let s ← selfBytesToBack moved.1 firstPtr lastPtr moved.2
    let cb ← check s.cb
    shrinkSize ⟨s.mem, cb⟩

end SelfFrontToBack

section SelfBackToFront

/-- `while (last >= 0 && last < DEFAULT_SIZE - 1)`, which runs `count` times. -/
def selfAlignBack (firstPtr lastPtr : BlockId) : Nat → Buf → Buf
  | 0, s => s
  | count + 1, s =>
      let start := wsub s.cb.beginPos 1
      let stop := wsub s.cb.endPos 1
      selfAlignBack firstPtr lastPtr count
        ⟨copyByte s.mem firstPtr start lastPtr stop, s.cb.buffer, start, stop⟩

def selfBlockToFront (cb : ControlBlock) : Except Fault ControlBlock := do
  let lastIndex := wsub cb.endPos 1 / defaultSize
  let last ← blockAt cb.buffer lastIndex
  if cb.beginPos ≠ 0 then
    let firstIndex := wsub cb.beginPos 1 / defaultSize
    let temp ← blockAt cb.buffer firstIndex
    .ok ⟨(cb.buffer.set firstIndex last).set lastIndex temp, wsub cb.beginPos defaultSize,
      wsub cb.endPos defaultSize⟩
  else if SpareBack cb then
    let back ← blockAt (last :: cb.buffer) cb.buffer.length
    .ok { cb with buffer := ((last :: cb.buffer).set (lastIndex + 1) back).dropLast }
  else .ok { cb with buffer := (last :: cb.buffer).dropLast }

def selfBlocksToFront (n : Nat) (cb : ControlBlock) : Except Fault (Nat × ControlBlock) :=
  if n > defaultSize then do
    let cb ← selfBlockToFront cb
    selfBlocksToFront (n - defaultSize) cb
  else .ok (n, cb)
termination_by n
decreasing_by
  have positive := block_size_pos
  omega

def selfBackBlocks (n : Nat) (s : Buf) : Except Fault (Nat × Buf) :=
  if wsub s.cb.endPos s.cb.beginPos % defaultSize = 0 ∧ n > 2 * defaultSize then do
    let last := wsub s.cb.endPos 1 % defaultSize
    let gap := if last + 1 < defaultSize then last + 1 else 0
    let firstPtr ← blockAt s.cb.buffer (s.cb.beginPos / defaultSize)
    let lastPtr ← blockAt s.cb.buffer (wsub s.cb.endPos 1 / defaultSize)
    let aligned := selfAlignBack firstPtr lastPtr gap s
    let moved ← selfBlocksToFront (wsub n gap) aligned.cb
    .ok (moved.1, ⟨aligned.mem, moved.2⟩)
  else .ok (n, s)

/-- A block to write to in front of `begin = 0`: the spare one from the back, or a new one. -/
def selfRoomFront (s : Buf) : Except Fault Buf :=
  if SpareBack s.cb then
    match s.cb.buffer.getLast? with
    | none => .error .outOfRange
    | some back => .ok ⟨s.mem, back :: s.cb.buffer.dropLast, s.cb.beginPos + defaultSize,
        s.cb.endPos + defaultSize⟩
  else do
    let got ← s.mem.newBlock
    .ok ⟨got.2, got.1 :: s.cb.buffer, s.cb.beginPos + defaultSize, s.cb.endPos + defaultSize⟩

/-- The branch on `begin == 0`, which reloads both pointers. -/
def selfPrepareFront (firstPtr lastPtr : BlockId) (s : Buf) :
    Except Fault (Buf × BlockId × BlockId) :=
  if s.cb.beginPos = 0 then do
    let s ← selfRoomFront s
    let firstPtr ← blockAt s.cb.buffer (wsub s.cb.beginPos 1 / defaultSize)
    let lastPtr ← blockAt s.cb.buffer (wsub s.cb.endPos 1 / defaultSize)
    .ok (s, firstPtr, lastPtr)
  else .ok (s, firstPtr, lastPtr)

/-- `while (n > 0)` -/
def selfBytesToFront : Nat → BlockId → BlockId → Buf → Except Fault Buf
  | 0, _, _, s => .ok s
  | n + 1, firstPtr, lastPtr, s => do
      let (s, firstPtr, lastPtr) ← selfPrepareFront firstPtr lastPtr s
      let firstPtr ← reloadBefore s.cb.buffer s.cb.beginPos firstPtr
      let lastPtr ← reloadBefore s.cb.buffer s.cb.endPos lastPtr
      let start := wsub s.cb.beginPos 1
      let stop := wsub s.cb.endPos 1
      selfBytesToFront n firstPtr lastPtr
        ⟨copyByte s.mem firstPtr start lastPtr stop, s.cb.buffer, start, stop⟩

def selfPopBackToFrontN (n : Nat) (s : Buf) : Except Fault Buf := do
  let cb ← check s.cb
  if cb.beginPos = npos ∨ n = 0 ∨ n ≥ wsub cb.endPos cb.beginPos then .ok ⟨s.mem, cb⟩
  else
    let moved ← selfBackBlocks n ⟨s.mem, cb⟩
    let firstPtr ← blockAt moved.2.cb.buffer (moved.2.cb.beginPos / defaultSize)
    let lastPtr ← blockAt moved.2.cb.buffer (wsub moved.2.cb.endPos 1 / defaultSize)
    let s ← selfBytesToFront moved.1 firstPtr lastPtr moved.2
    let cb ← check s.cb
    shrinkSize ⟨s.mem, cb⟩

end SelfBackToFront

section Lend

/-- An empty receiver without blocks is lent one: the sender's spare block at
its back, else the one in front of its content, else a new one. -/
def lendBlock (p : Pair) : Except Fault Pair :=
  if p.other.buffer.isEmpty then
    if SpareBack p.this then
      match p.this.buffer.getLast? with
      | none => .error .outOfRange
      | some back => .ok ⟨p.mem, { p.this with buffer := p.this.buffer.dropLast },
          { p.other with buffer := p.other.buffer ++ [back] }⟩
    else if p.this.beginPos / defaultSize > 0 then
      match p.this.buffer with
      | [] => .error .outOfRange
      | front :: rest => .ok ⟨p.mem,
          ⟨rest, wsub p.this.beginPos defaultSize, wsub p.this.endPos defaultSize⟩,
          { p.other with buffer := p.other.buffer ++ [front] }⟩
    else do
      let got ← p.mem.newBlock
      .ok ⟨got.2, p.this, { p.other with buffer := p.other.buffer ++ [got.1] }⟩
  else .ok p

end Lend

section OtherFrontToBack

/-- `other.begin() = begin() % DEFAULT_SIZE; other.end() = other.begin();` -/
def otherOpenBack (p : Pair) : Except Fault Pair :=
  if p.other.beginPos = npos then do
    let p ← lendBlock p
    let start := p.this.beginPos % defaultSize
    .ok { p with other := ⟨p.other.buffer, start, start⟩ }
  else .ok p

def otherAlignFront (firstPtr lastPtr : BlockId) : Nat → Pair → Pair
  | 0, p => p
  | count + 1, p =>
      otherAlignFront firstPtr lastPtr count
        ⟨copyByte p.mem lastPtr p.other.endPos firstPtr p.this.beginPos,
          { p.this with beginPos := p.this.beginPos + 1 },
          { p.other with endPos := p.other.endPos + 1 }⟩

/-- The pointers are loaded only when there are bytes to align. -/
def otherAlignedFront (gap : Nat) (p : Pair) : Except Fault Pair :=
  if p.this.beginPos % defaultSize ≠ 0 then do
    let firstPtr ← blockAt p.this.buffer (p.this.beginPos / defaultSize)
    let lastPtr ← blockAt p.other.buffer (p.other.endPos / defaultSize)
    .ok (otherAlignFront firstPtr lastPtr gap p)
  else .ok p

def otherBlockToBack (p : Pair) : Except Fault Pair := do
  let first ← blockAt p.this.buffer (p.this.beginPos / defaultSize)
  if p.other.endPos ≠ p.other.buffer.length * defaultSize then
    let temp ← blockAt p.other.buffer (p.other.endPos / defaultSize)
    .ok ⟨p.mem,
      ⟨p.this.buffer.set (p.this.beginPos / defaultSize) temp, p.this.beginPos + defaultSize,
        p.this.endPos⟩,
      ⟨p.other.buffer.set (p.other.endPos / defaultSize) first, p.other.beginPos,
        p.other.endPos + defaultSize⟩⟩
  else if p.this.beginPos ≠ 0 then
    let front ← blockAt p.this.buffer 0
    .ok ⟨p.mem,
      ⟨(p.this.buffer.set (p.this.beginPos / defaultSize) front).tail, p.this.beginPos,
        wsub p.this.endPos defaultSize⟩,
      ⟨p.other.buffer ++ [first], p.other.beginPos, p.other.endPos + defaultSize⟩⟩
  else
    .ok ⟨p.mem,
      ⟨p.this.buffer.tail, p.this.beginPos, wsub p.this.endPos defaultSize⟩,
      ⟨p.other.buffer ++ [first], p.other.beginPos, p.other.endPos + defaultSize⟩⟩

def otherBlocksToBack (n : Nat) (p : Pair) : Except Fault (Nat × Pair) :=
  if n > defaultSize then do
    let p ← otherBlockToBack p
    otherBlocksToBack (n - defaultSize) p
  else .ok (n, p)
termination_by n
decreasing_by
  have positive := block_size_pos
  omega

def otherFrontBlocks (n : Nat) (p : Pair) : Except Fault (Nat × Pair) :=
  if wsub p.this.beginPos p.other.endPos % defaultSize = 0 ∧ n > 2 * defaultSize then do
    let first := p.this.beginPos % defaultSize
    let gap := if first % defaultSize = 0 then 0 else defaultSize - first
    let aligned ← otherAlignedFront gap p
    otherBlocksToBack (wsub n gap) aligned
  else .ok (n, p)

/-- A block to write to at `other.end()`: an unused one from this buffer's
front, then from the other's own, or a new one. -/
def otherRoomBack (p : Pair) : Except Fault Pair :=
  if p.other.endPos = p.other.buffer.length * defaultSize then
    if p.this.beginPos ≥ defaultSize then
      match p.this.buffer with
      | [] => .error .outOfRange
      | front :: rest => .ok ⟨p.mem,
          ⟨rest, wsub p.this.beginPos defaultSize, wsub p.this.endPos defaultSize⟩,
          { p.other with buffer := p.other.buffer ++ [front] }⟩
    else if p.other.buffer.length > 0 ∧ p.other.beginPos ≥ defaultSize then
      match p.other.buffer with
      | [] => .error .outOfRange
      | front :: rest => .ok ⟨p.mem, p.this, ⟨rest ++ [front],
          wsub p.other.beginPos defaultSize, wsub p.other.endPos defaultSize⟩⟩
    else do
      let got ← p.mem.newBlock
      .ok ⟨got.2, p.this, { p.other with buffer := p.other.buffer ++ [got.1] }⟩
  else .ok p

def deref : Option BlockId → Except Fault BlockId
  | some block => .ok block
  | none => .error .nullPointer

/-- `reload` for the pointer that starts as `nullptr` at a block start. -/
def reloadNull (buffer : List BlockId) (pos : Nat) (block : Option BlockId) :
    Except Fault BlockId :=
  if pos % defaultSize = 0 then blockAt buffer (pos / defaultSize) else deref block

def otherBytesToBack : Nat → BlockId → Option BlockId → Pair → Except Fault Pair
  | 0, _, _, p => .ok p
  | n + 1, firstPtr, lastPtr, p => do
      let p ← otherRoomBack p
      let lastPtr ← reloadNull p.other.buffer p.other.endPos lastPtr
      let firstPtr ← reload p.this.buffer p.this.beginPos firstPtr
      otherBytesToBack n firstPtr (some lastPtr)
        ⟨copyByte p.mem lastPtr p.other.endPos firstPtr p.this.beginPos,
          { p.this with beginPos := p.this.beginPos + 1 },
          { p.other with endPos := p.other.endPos + 1 }⟩

/-- `other_last_block_ptr` before the byte loop. -/
def lastOrNull (cb : ControlBlock) : Except Fault (Option BlockId) :=
  if cb.endPos % defaultSize = 0 then .ok none
  else do
    let block ← blockAt cb.buffer (wsub cb.endPos 1 / defaultSize)
    .ok (some block)

/-- `check` on both buffers, then `__shrink_size` on both. -/
def closePair (p : Pair) : Except Fault Pair := do
  let this ← check p.this
  let other ← check p.other
  let first ← shrinkSize ⟨p.mem, this⟩
  let second ← shrinkSize ⟨first.mem, other⟩
  .ok ⟨second.mem, first.cb, second.cb⟩

def otherPopFrontToBackN (n : Nat) (p : Pair) : Except Fault Pair := do
  let this ← check p.this
  let other ← check p.other
  if this.beginPos = npos ∨ n = 0 then .ok ⟨p.mem, this, other⟩
  else
    let n := if n ≥ wsub this.endPos this.beginPos then wsub this.endPos this.beginPos else n
    let opened ← otherOpenBack ⟨p.mem, this, other⟩
    let moved ← otherFrontBlocks n opened
    let firstPtr ← blockAt moved.2.this.buffer (moved.2.this.beginPos / defaultSize)
    let lastPtr ← lastOrNull moved.2.other
    let copied ← otherBytesToBack moved.1 firstPtr lastPtr moved.2
    closePair copied

end OtherFrontToBack

section OtherBackToFront

/-- `other.begin() = end() % DEFAULT_SIZE; other.end() = other.begin();` -/
def otherOpenFront (p : Pair) : Except Fault Pair :=
  if p.other.beginPos = npos then do
    let p ← lendBlock p
    let start := p.this.endPos % defaultSize
    .ok { p with other := ⟨p.other.buffer, start, start⟩ }
  else .ok p

def otherAlignBack (firstPtr lastPtr : BlockId) : Nat → Pair → Pair
  | 0, p => p
  | count + 1, p =>
      let start := wsub p.other.beginPos 1
      let stop := wsub p.this.endPos 1
      otherAlignBack firstPtr lastPtr count
        ⟨copyByte p.mem firstPtr start lastPtr stop, { p.this with endPos := stop },
          { p.other with beginPos := start }⟩

def otherBlockToFront (p : Pair) : Except Fault Pair := do
  let lastIndex := wsub p.this.endPos 1 / defaultSize
  let last ← blockAt p.this.buffer lastIndex
  if p.other.beginPos ≠ 0 then
    let firstIndex := wsub p.other.beginPos 1 / defaultSize
    let temp ← blockAt p.other.buffer firstIndex
    .ok ⟨p.mem,
      ⟨p.this.buffer.set lastIndex temp, p.this.beginPos, wsub p.this.endPos defaultSize⟩,
      ⟨p.other.buffer.set firstIndex last, wsub p.other.beginPos defaultSize,
        p.other.endPos⟩⟩
  else if SpareBack p.this then
    let back ← blockAt p.this.buffer (wsub p.this.buffer.length 1)
    .ok ⟨p.mem,
      ⟨(p.this.buffer.set lastIndex back).dropLast, p.this.beginPos,
        wsub p.this.endPos defaultSize⟩,
      ⟨last :: p.other.buffer, p.other.beginPos, p.other.endPos + defaultSize⟩⟩
  else
    .ok ⟨p.mem,
      ⟨p.this.buffer.dropLast, p.this.beginPos, wsub p.this.endPos defaultSize⟩,
      ⟨last :: p.other.buffer, p.other.beginPos, p.other.endPos + defaultSize⟩⟩

def otherBlocksToFront (n : Nat) (p : Pair) : Except Fault (Nat × Pair) :=
  if n > defaultSize then do
    let p ← otherBlockToFront p
    otherBlocksToFront (n - defaultSize) p
  else .ok (n, p)
termination_by n
decreasing_by
  have positive := block_size_pos
  omega

def otherBackBlocks (n : Nat) (p : Pair) : Except Fault (Nat × Pair) :=
  if wsub p.this.endPos p.other.beginPos % defaultSize = 0 ∧ n > 2 * defaultSize then do
    let last := wsub p.this.endPos 1 % defaultSize
    let gap := if last + 1 < defaultSize then last + 1 else 0
    let lastPtr ← blockAt p.this.buffer (wsub p.this.endPos 1 / defaultSize)
    let firstPtr ← blockAt p.other.buffer (p.other.beginPos / defaultSize)
    otherBlocksToFront (wsub n gap) (otherAlignBack firstPtr lastPtr gap p)
  else .ok (n, p)

/-- A block to write to in front of `other.begin() = 0`: this buffer's spare one
at the back, then the other's own, or a new one. -/
def otherRoomFront (p : Pair) : Except Fault Pair :=
  let roomed (buffer : List BlockId) : ControlBlock :=
    ⟨buffer, p.other.beginPos + defaultSize, p.other.endPos + defaultSize⟩
  if SpareBack p.this then
    match p.this.buffer.getLast? with
    | none => .error .outOfRange
    | some back => .ok ⟨p.mem, { p.this with buffer := p.this.buffer.dropLast },
        roomed (back :: p.other.buffer)⟩
  else if p.other.buffer.length > 0 ∧ SpareBack p.other then
    match p.other.buffer.getLast? with
    | none => .error .outOfRange
    | some back => .ok ⟨p.mem, p.this, roomed (back :: p.other.buffer.dropLast)⟩
  else do
    let got ← p.mem.newBlock
    .ok ⟨got.2, p.this, roomed (got.1 :: p.other.buffer)⟩

/-- The branch on `other.begin() == 0`, which reloads both pointers. -/
def otherPrepareFront (firstPtr lastPtr : BlockId) (p : Pair) :
    Except Fault (Pair × BlockId × BlockId) :=
  if p.other.beginPos = 0 then do
    let p ← otherRoomFront p
    let lastPtr ← blockAt p.this.buffer (wsub p.this.endPos 1 / defaultSize)
    let firstPtr ← blockAt p.other.buffer (p.other.beginPos / defaultSize)
    .ok (p, firstPtr, lastPtr)
  else .ok (p, firstPtr, lastPtr)

def otherBytesToFront : Nat → BlockId → BlockId → Pair → Except Fault Pair
  | 0, _, _, p => .ok p
  | n + 1, firstPtr, lastPtr, p => do
      let (p, firstPtr, lastPtr) ← otherPrepareFront firstPtr lastPtr p
      let firstPtr ← reloadBefore p.other.buffer p.other.beginPos firstPtr
      let lastPtr ← reloadBefore p.this.buffer p.this.endPos lastPtr
      let start := wsub p.other.beginPos 1
      let stop := wsub p.this.endPos 1
      otherBytesToFront n firstPtr lastPtr
        ⟨copyByte p.mem firstPtr start lastPtr stop, { p.this with endPos := stop },
          { p.other with beginPos := start }⟩

def otherPopBackToFrontN (n : Nat) (p : Pair) : Except Fault Pair := do
  let this ← check p.this
  let other ← check p.other
  if this.beginPos = npos then .ok ⟨p.mem, this, other⟩
  else
    let n := if n ≥ wsub this.endPos this.beginPos then wsub this.endPos this.beginPos else n
    let opened ← otherOpenFront ⟨p.mem, this, other⟩
    let moved ← otherBackBlocks n opened
    let lastPtr ← blockAt moved.2.this.buffer (wsub moved.2.this.endPos 1 / defaultSize)
    let firstPtr ← blockAt moved.2.other.buffer (moved.2.other.beginPos / defaultSize)
    let copied ← otherBytesToFront moved.1 firstPtr lastPtr moved.2
    closePair copied

end OtherBackToFront

end Npoller.IoBufferTransfer
