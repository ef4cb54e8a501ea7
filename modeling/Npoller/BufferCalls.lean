import Npoller.BufferWorld

/-!
Every operation of `io_buffer` with any arguments: `set`, `get` and `get_n`
beside the operations of a world, and copying pops of any size. Whatever the
operations, a buffer that has bytes taken from its front and appended to another
one follows the law of sequences.
-/

namespace Npoller.BufferCalls

open Outcome SizeT MemContainer IoBuffer IoBufferSpec IoBufferTransfer TransferRules SelfTransfer
  PairTransfer BufferWorld StepSystem

variable {k : Nat} {born : Nat} {w : World k}

/-- `void set(size_t n, char a)` -/
def setByte (n : Nat) (byte : Byte) (s : Buf) : Except Fault Buf :=
  if n > wsub s.cb.endPos s.cb.beginPos then .error (.logicError "Buffer Overflow!")
  else do
    let block ← blockAt s.cb.buffer (wadd s.cb.beginPos n / defaultSize)
    .ok ⟨s.mem.write block (wadd s.cb.beginPos n % defaultSize) byte, s.cb⟩

/-- `size_t get_n(size_t n, char *dest, size_t size)` -/
def getN (n size : Nat) (s : Buf) : Except Fault Popped :=
  let b := s.cb.beginPos
  let e := s.cb.endPos
  if b = npos ∧ b ≥ e then .ok ⟨[], 0, ⟨s.mem, s.cb.emptied⟩⟩
  else if n ≥ wsub e b then .ok ⟨[], 0, s⟩
  else do
    let size := if wsub (wadd (wadd b n) size) 1 ≥ e then wsub e (wadd b n) else size
    let block ← blockAt s.cb.buffer (wadd b n / defaultSize)
    let dest ← copyOut s.cb.buffer s.mem size (wadd b n) block
    .ok ⟨dest, size, s⟩

inductive BufferCall (k : Nat) where
  | op (op : BufferOp k)
  | set (i : Fin k) (n : Nat) (byte : Byte)
  | get (i : Fin k) (n : Nat)
  | getN (i : Fin k) (n size : Nat)

def BufferCall.run (w : World k) : BufferCall k → Except Fault (World k)
  | .op which => which.run w
  | .set i n byte => w.on i (setByte n byte)
  | .get i n => w.on i (fun s => (fun _ => s) <$> getByte n s)
  | .getN i n size => w.on i (fun s => Popped.buf <$> BufferCalls.getN n size s)

def callSystem (k : Nat) : System (World k) (BufferCall k) where
  init := (worldSystem k).init
  step before call after := call.run before = .ok after

section Calls

theorem op_keeps (op : BufferOp k) (sound : Sound born w) :
    Ends (fun _ => True) (op.run w) (Sound born) := by
  by_cases admissible : op.Admissible w
  · exact ends_mono (run_keeps op sound admissible) (fun _ _ => trivial) (fun _ kept => kept)
  · cases op with
    | popFrontInto i size =>
        rw [BufferOp.run]
        apply on_keeps sound.rep sound.owns
        intro rest split
        apply ends_map
        exact ends_mono (pop_front_into_ends size (sound.rep i) split) (fun _ _ => trivial)
          (fun _ served => ⟨_, served.2⟩)
    | popBackInto i size =>
        rw [BufferOp.run]
        apply on_keeps sound.rep sound.owns
        intro rest split
        apply ends_map
        exact ends_total (ends_weaken (pop_back_into_serves size (sound.rep i) split)
          (fun _ served => ⟨_, served.2.2⟩))
    | _ => exact absurd trivial admissible

theorem same_serves {s : Buf} {rest : List BlockId} (rep : Rep s.cb)
    (owns : Owns born s.mem (s.cb.buffer ++ rest)) : Serves born rest s s (content s) :=
  ⟨rep, owns, fun _ _ => rfl, rfl⟩

theorem set_byte_serves {s : Buf} {rest : List BlockId} (n : Nat) (byte : Byte) (rep : Rep s.cb)
    (owns : Owns born s.mem (s.cb.buffer ++ rest)) :
    Ends (fun _ => True) (setByte n byte s) (fun after =>
      ∃ bytes, Serves born rest s after bytes) := by
  unfold setByte
  split
  · exact trivial
  · unfold blockAt
    split
    · rename_i block found
      have listed : block ∈ s.cb.buffer := List.mem_of_getElem? found
      refine ⟨_, rep, (owns_write block _ byte).mpr owns, ?_, rfl⟩
      exact write_frame owns listed _ byte
    · exact trivial

theorem get_n_serves {s : Buf} {rest : List BlockId} (n size : Nat) (rep : Rep s.cb)
    (owns : Owns born s.mem (s.cb.buffer ++ rest)) :
    Ends (fun _ => True) (getN n size s) (fun popped =>
      ∃ bytes, Serves born rest s popped.buf bytes) := by
  unfold getN
  dsimp only
  split
  · rename_i idle
    rcases rep with vacant | filled
    · refine ⟨_, Or.inl ⟨rfl, rfl, vacant.2.2⟩, owns, fun _ _ => rfl, rfl⟩
    · exact absurd idle.1 (filled_not_npos filled (owns_buffer_length owns))
  · split
    · exact ⟨_, same_serves rep owns⟩
    · cases blockAt s.cb.buffer _ with
      | error fault => exact trivial
      | ok block =>
          rw [ok_bind]
          cases copyOut s.cb.buffer s.mem _ _ block with
          | error fault => exact trivial
          | ok dest => exact ⟨_, same_serves rep owns⟩

theorem call_keeps (call : BufferCall k) (sound : Sound born w) :
    Ends (fun _ => True) (call.run w) (Sound born) := by
  cases call with
  | op which => exact op_keeps which sound
  | set i n byte =>
      rw [BufferCall.run]
      apply on_keeps sound.rep sound.owns
      intro rest split
      exact set_byte_serves n byte (sound.rep i) split
  | get i n =>
      rw [BufferCall.run]
      apply on_keeps sound.rep sound.owns
      intro rest split
      apply ends_map
      cases getByte n (w.buf i) with
      | ok byte => exact ⟨_, same_serves (sound.rep i) split⟩
      | error fault => exact trivial
  | getN i n size =>
      rw [BufferCall.run]
      apply on_keeps sound.rep sound.owns
      intro rest split
      apply ends_map
      exact get_n_serves n size (sound.rep i) split

theorem calls_sound (reached : Reachable (callSystem k) w) : Sound 0 w := by
  have starts : ∀ state, (callSystem k).init state → Sound 0 state :=
    fun _ begins => start_sound begins
  apply invariant starts _ reached
  intro before call after sound _ moves
  exact ends_value (call_keeps call sound) moves

end Calls

section Transfers
variable {i j : Fin k}

theorem pair_contents {allowed : Fault → Prop} {op : Pair → Except Fault Pair} {left held : List Byte} (apart : i ≠ j)
    (owns : Owns born w.mem w.blocks)
    (serves : ∀ rest, Owns born w.mem ((w.buffers i).buffer ++ ((w.buffers j).buffer ++ rest)) →
      Ends allowed (op ⟨w.mem, w.buffers i, w.buffers j⟩) (fun after =>
        PairServes born rest w.mem after left held)) :
    Ends allowed (op ⟨w.mem, w.buffers i, w.buffers j⟩ >>= fun after =>
      .ok ((w.set i ⟨after.mem, after.this⟩).set j ⟨after.mem, after.other⟩))
      (fun after => content (after.buf j) = held ∧ content (after.buf i) = left) := by
  have member : j ∈ (List.finRange k).erase i :=
    (List.mem_erase_of_ne (Ne.symm apart)).mpr (List.mem_finRange j)
  have split := owns_perm (owns_split i owns)
    (List.Perm.append_left _ (buffers_split w.buffers _ member))
  apply ends_bind (serves _ split)
  intro after served
  constructor
  · simpa [World.buf, World.set] using served.otherHolds
  · simpa [World.buf, World.set, apart] using served.thisHolds

/-- Bytes moved from the front of one buffer to the back of another: in every state
the operations reach, the receiver gains the first `n` bytes and the sender keeps
the rest. Only an allocation can fail, and only where all blocks are in use or pooled
already; no index into a deque is out of range. -/
theorem front_to_back_moves (reached : Reachable (callSystem k) w) (apart : i ≠ j) (n : Nat) :
    Ends (outOfMemory w.mem.live) (popFrontToOtherBackN i j n w) (fun after =>
      content (after.buf j) = content (w.buf j) ++ (content (w.buf i)).take n ∧
      content (after.buf i) = (content (w.buf i)).drop n) := by
  have sound := calls_sound reached
  rw [popFrontToOtherBackN, if_neg apart]
  apply pair_contents apart sound.owns
  intro rest split
  exact other_pop_front_to_back_serves n (sound.rep i) (sound.rep j) split

/-- Bytes moved from the back of one buffer to the front of another: the last `n`
bytes come in front of the receiver's, in their order, for every `n`. A receiver without
blocks may need two of them. -/
theorem back_to_front_moves (reached : Reachable (callSystem k) w) (apart : i ≠ j) (n : Nat) :
    Ends (outOfMemory (w.mem.live + 1)) (popBackToOtherFrontN i j n w) (fun after =>
      content (after.buf j) = (content (w.buf i)).drop ((content (w.buf i)).length - n) ++
        content (w.buf j) ∧
      content (after.buf i) = (content (w.buf i)).take ((content (w.buf i)).length - n)) := by
  have sound := calls_sound reached
  rw [popBackToOtherFrontN, if_neg apart]
  apply pair_contents apart sound.owns
  intro rest split
  exact other_pop_back_to_front_serves n (sound.rep i) (sound.rep j) split

theorem on_contents {allowed : Fault → Prop} {op : Buf → Except Fault Buf} {bytes : List Byte}
    (owns : Owns born w.mem w.blocks)
    (serves : ∀ rest, Owns born w.mem ((w.buffers i).buffer ++ rest) →
      Ends allowed (op (w.buf i)) (fun after => Serves born rest (w.buf i) after bytes)) :
    Ends allowed (w.on i op) (fun after => content (after.buf i) = bytes) := by
  apply ends_bind (serves _ (owns_split i owns))
  intro after served
  simpa [World.buf, World.set] using served.holds

theorem self_left_turns (sound : Sound born w) (n : Nat) :
    Ends (outOfMemory w.mem.live) (popFrontToOtherBackN i i n w) (fun after =>
      content (after.buf i) = turnedLeft n (content (w.buf i))) := by
  rw [popFrontToOtherBackN, if_pos rfl]
  apply on_contents sound.owns
  intro rest split
  exact self_pop_front_to_back_serves n (sound.rep i) split

theorem self_right_turns (sound : Sound born w) (n : Nat) :
    Ends (outOfMemory w.mem.live) (popBackToOtherFrontN i i n w) (fun after =>
      content (after.buf i) = turnedRight n (content (w.buf i))) := by
  rw [popBackToOtherFrontN, if_pos rfl]
  apply on_contents sound.owns
  intro rest split
  exact self_pop_back_to_front_serves n (sound.rep i) split

/-- Whether a rotation by `n` returns at once. -/
def Idle (n : Nat) (bytes : List Byte) : Prop := n = 0 ∨ n ≥ bytes.length

instance (n : Nat) (bytes : List Byte) : Decidable (Idle n bytes) :=
  inferInstanceAs (Decidable (_ ∨ _))

/-- Bytes moved from the front of a buffer to its own back rotate it to the left. -/
theorem rotates_left (reached : Reachable (callSystem k) w) (n : Nat) :
    Ends (outOfMemory w.mem.live) (popFrontToOtherBackN i i n w) (fun after =>
      content (after.buf i) = if Idle n (content (w.buf i)) then content (w.buf i)
        else (content (w.buf i)).drop n ++ (content (w.buf i)).take n) := by
  apply ends_weaken (self_left_turns (calls_sound reached) n)
  intro after turned
  rw [turned]
  split
  · rename_i idle
    exact turned_left_idle idle
  · rename_i busy
    unfold Idle at busy
    rw [turnedLeft, if_pos (by omega)]

/-- Bytes moved from the back of a buffer to its own front rotate it to the right,
and the left rotation by the same number of bytes takes it back. -/
theorem rotates_right (reached : Reachable (callSystem k) w) (n : Nat) :
    Ends (outOfMemory w.mem.live) (popBackToOtherFrontN i i n w) (fun after =>
      (content (after.buf i) = if Idle n (content (w.buf i)) then content (w.buf i)
        else (content (w.buf i)).drop ((content (w.buf i)).length - n) ++
          (content (w.buf i)).take ((content (w.buf i)).length - n)) ∧
      Ends (outOfMemory after.mem.live) (popFrontToOtherBackN i i n after) (fun back =>
        content (back.buf i) = content (w.buf i))) := by
  have sound := calls_sound reached
  apply ends_weaken (ends_returned (self_right_turns sound n))
  rintro after ⟨turned, moves⟩
  have kept : Sound 0 after := ends_value (run_keeps (.backToFront i i n) sound trivial) moves
  constructor
  · rw [turned]
    split
    · rename_i idle
      exact turned_right_idle idle
    · rename_i busy
      unfold Idle at busy
      rw [turnedRight, if_pos (by omega)]
  · apply ends_weaken (self_left_turns kept n)
    intro back turnedBack
    rw [turnedBack, turned]
    exact turned_right_undone n (content (w.buf i))

theorem calls_of_operations (reached : ReachableBy (worldSystem k) BufferOp.Admissible w) :
    Reachable (callSystem k) w := by
  induction reached with
  | start begins => exact .start begins
  | @next before after op _ _ moves ih =>
      have called : (callSystem k).step before (.op op) after := moves
      exact reachable_next ih called

theorem sample_called : Reachable (callSystem 2) samplePushed :=
  calls_of_operations sample_reachable

theorem front_to_back_moves_sample :
    Ends (outOfMemory samplePushed.mem.live) (popFrontToOtherBackN 0 1 1 samplePushed) (fun after =>
      content (after.buf 1) = content (samplePushed.buf 1) ++ (content (samplePushed.buf 0)).take 1 ∧
      content (after.buf 0) = (content (samplePushed.buf 0)).drop 1) :=
  front_to_back_moves sample_called (by decide) 1

theorem back_to_front_moves_sample :
    Ends (outOfMemory (samplePushed.mem.live + 1)) (popBackToOtherFrontN 0 1 1 samplePushed) (fun after =>
      content (after.buf 1) = (content (samplePushed.buf 0)).drop
        ((content (samplePushed.buf 0)).length - 1) ++ content (samplePushed.buf 1) ∧
      content (after.buf 0) = (content (samplePushed.buf 0)).take
        ((content (samplePushed.buf 0)).length - 1)) :=
  back_to_front_moves sample_called (by decide) 1

theorem rotates_left_sample :
    Ends (outOfMemory samplePushed.mem.live) (popFrontToOtherBackN 0 0 1 samplePushed) (fun after =>
      content (after.buf 0) = if Idle 1 (content (samplePushed.buf 0)) then
        content (samplePushed.buf 0)
        else (content (samplePushed.buf 0)).drop 1 ++ (content (samplePushed.buf 0)).take 1) :=
  rotates_left sample_called 1

theorem rotates_right_sample :
    Ends (outOfMemory samplePushed.mem.live) (popBackToOtherFrontN 0 0 1 samplePushed) (fun after =>
      (content (after.buf 0) = if Idle 1 (content (samplePushed.buf 0)) then
        content (samplePushed.buf 0)
        else (content (samplePushed.buf 0)).drop ((content (samplePushed.buf 0)).length - 1) ++
          (content (samplePushed.buf 0)).take ((content (samplePushed.buf 0)).length - 1)) ∧
      Ends (outOfMemory after.mem.live) (popFrontToOtherBackN 0 0 1 after) (fun back =>
        content (back.buf 0) = content (samplePushed.buf 0))) :=
  rotates_right sample_called 1

end Transfers

end Npoller.BufferCalls
