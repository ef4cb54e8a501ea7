import Npoller.BufferCalls

/-!
The `read(2)` calls of `io::direct_read`, in order, as a history beside its loop.
Each one is pointed at the free bytes of a listed block and asks for no more than
remain there; what the loop appends to the buffer is what they delivered.
-/

namespace Npoller.ReadCalls

open Outcome SizeT MemContainer IoBuffer IoBufferSpec TransferRules DirectIo DirectIoSpec
  BufferWorld BufferCalls StepSystem

variable {born : Nat} {rest : List BlockId}

/-- `read(fd, block + offset, asked)`, and the bytes it put there. -/
structure ReadCall where
  block : BlockId
  offset : Nat
  asked : Nat
  bytes : List Byte

def Target.call (target : Target) (bytes : List Byte) : ReadCall :=
  ⟨target.block, target.buf.cb.endPos % defaultSize, target.room, bytes⟩

/-- What is called once there is a block to read into; nothing where none is left. -/
def onTarget (calls : Target → List ReadCall) : Except Fault Target → List ReadCall
  | .error _ => []
  | .ok target => calls target

/-- The calls of `directReadLoop`, until one of them ends it. -/
def readCalls : List ReadResult → Nat → Buf → List ReadCall
  | [], _, s => readTarget s |> onTarget fun target => [Target.call target []]
  | .bytes first more :: results, retryTimes, s => readTarget s |> onTarget fun target =>
      Target.call target ((first :: more).take target.room) ::
        readCalls results retryTimes (received target ((first :: more).take target.room))
  | .eof :: _, _, s => readTarget s |> onTarget fun target => [Target.call target []]
  | .failed errno :: results, retryTimes, s => readTarget s |> onTarget fun target =>
      Target.call target [] ::
        if Retries errno retryTimes then readCalls results (retryTimes + 1) target.buf else []

/-- A call stays in the block it is pointed at. -/
structure InBlock (call : ReadCall) : Prop where
  asks : call.offset + call.asked ≤ defaultSize
  delivers : call.bytes.length ≤ call.asked

theorem call_in_block {s : Buf} {target : Target} {bytes : List Byte}
    (ready : Readable rest born s target) (fits : bytes.length ≤ target.room) :
    InBlock (Target.call target bytes) := by
  refine ⟨?_, fits⟩
  have offset := Nat.mod_lt target.buf.cb.endPos block_size_pos
  have room := ready.room
  change target.buf.cb.endPos % defaultSize + target.room ≤ defaultSize
  omega

theorem on_target_fits {allowed : Fault → Prop} {s : Buf} {calls : Target → List ReadCall} {aim : Except Fault Target}
    (aimed : Ends allowed aim (Readable rest born s))
    (fit : ∀ target, Readable rest born s target → ∀ call ∈ calls target, InBlock call) :
    ∀ call ∈ onTarget calls aim, InBlock call := by
  cases aim with
  | error fault => exact List.forall_mem_nil _
  | ok target => exact fit target aimed

theorem read_calls_fit (results : List ReadResult) (retryTimes : Nat) {s : Buf} (rep : Rep s.cb)
    (owns : Owns born s.mem (s.cb.buffer ++ rest)) :
    ∀ call ∈ readCalls results retryTimes s, InBlock call := by
  induction results generalizing retryTimes s with
  | nil =>
      rw [readCalls]
      apply on_target_fits (read_target_spec rep owns)
      intro target ready
      exact List.forall_mem_singleton.mpr (call_in_block ready (Nat.zero_le _))
  | cons result results ih =>
      cases result with
      | bytes first more =>
          rw [readCalls]
          apply on_target_fits (read_target_spec rep owns)
          intro target ready
          obtain ⟨some_, fits⟩ := received_room ready first more
          have served := received_serves ready some_ fits
          exact List.forall_mem_cons.mpr
            ⟨call_in_block ready fits, ih retryTimes served.rep served.owns⟩
      | eof =>
          rw [readCalls]
          apply on_target_fits (read_target_spec rep owns)
          intro target ready
          exact List.forall_mem_singleton.mpr (call_in_block ready (Nat.zero_le _))
      | failed errno =>
          rw [readCalls]
          apply on_target_fits (read_target_spec rep owns)
          intro target ready
          refine List.forall_mem_cons.mpr ⟨call_in_block ready (Nat.zero_le _), ?_⟩
          split
          · exact ih (retryTimes + 1) ready.rep ready.owns
          · exact List.forall_mem_nil _

theorem on_target_delivers {aim : Except Fault Target} {next : Target → Except Fault ReadDone}
    {calls : Target → List ReadCall}
    (counts : ∀ target, Ends (fun _ => True) (next target) (fun done =>
      done.delivered = (calls target).flatMap ReadCall.bytes)) :
    Ends (fun _ => True) (aim >>= next) (fun done =>
      done.delivered = (onTarget calls aim).flatMap ReadCall.bytes) := by
  cases aim with
  | error fault => exact trivial
  | ok target => exact counts target

theorem delivered_by_calls (results : List ReadResult) (retryTimes : Nat) (s : Buf) :
    Ends (fun _ => True) (directReadLoop results retryTimes s) (fun done =>
      done.delivered = (readCalls results retryTimes s).flatMap ReadCall.bytes) := by
  induction results generalizing retryTimes s with
  | nil =>
      rw [directReadLoop, readCalls]
      apply on_target_delivers
      intro target
      exact rfl
  | cons result results ih =>
      cases result with
      | bytes first more =>
          rw [directReadLoop, readCalls]
          apply on_target_delivers
          intro target
          apply ends_bind (ih retryTimes _)
          intro done counted
          rw [ends_ok, counted]
          rfl
      | eof =>
          rw [directReadLoop, readCalls]
          apply on_target_delivers
          intro target
          exact rfl
      | failed errno =>
          rw [directReadLoop, readCalls]
          apply on_target_delivers
          intro target
          split
          · exact ih (retryTimes + 1) target.buf
          · exact rfl

theorem fill_buffer_delivers (results : List ReadResult) {s : Buf} (rep : Rep s.cb)
    (owns : Owns born s.mem (s.cb.buffer ++ rest)) :
    Ends (outOfMemory (s.cb.buffer.length + rest.length + results.length)) (fillBuffer results s)
      (fun done => Serves born rest s done.buf
        (content s ++ (readCalls results 0 s).flatMap ReadCall.bytes)) := by
  have counted : Ends (fun _ => True) (fillBuffer results s) (fun done =>
      done.delivered = (readCalls results 0 s).flatMap ReadCall.bytes) := by
    apply ends_bind (delivered_by_calls results 0 s)
    intro done same
    exact same
  apply ends_weaken (ends_and (fill_buffer_serves results rep owns) counted)
  rintro done ⟨served, same⟩
  rwa [same] at served

variable {k : Nat} {w : World k}

theorem blocks_length (w : World k) (i : Fin k) : w.blocks.length =
    (w.buffers i).buffer.length +
      (((List.finRange k).erase i).flatMap (fun j => (w.buffers j).buffer)).length := by
  rw [World.blocks, (buffers_split w.buffers _ (List.mem_finRange i)).length_eq, List.length_append]

/-- None of the reads of `direct_read` asks for more than remains in its block, and the
buffer gains what they delivered and is left in the empty form or with `begin < end` in
the blocks. Memory can run out only when the blocks in use, and one more for each
result, are as many as there can be. -/
theorem direct_read_appends (reached : Reachable (callSystem k) w) (i : Fin k)
    (results : List ReadResult) :
    (∀ call ∈ readCalls results 0 (w.buf i), InBlock call) ∧
    Ends (outOfMemory (w.blocks.length + results.length)) (fillBuffer results (w.buf i))
      (fun done =>
        content done.buf = content (w.buf i) ++
          (readCalls results 0 (w.buf i)).flatMap ReadCall.bytes ∧
        ((done.buf.cb.beginPos = npos ∧ done.buf.cb.endPos = 0) ∨
          (done.buf.cb.beginPos < done.buf.cb.endPos ∧
            done.buf.cb.endPos ≤ done.buf.cb.buffer.length * defaultSize))) := by
  have sound := calls_sound reached
  have rep : Rep (w.buf i).cb := sound.rep i
  have owns : Owns 0 (w.buf i).mem ((w.buf i).cb.buffer ++ _) := owns_split i sound.owns
  refine ⟨read_calls_fit results 0 rep owns, ?_⟩
  rw [blocks_length w i]
  apply ends_weaken (fill_buffer_delivers results rep owns)
  intro done served
  refine ⟨served.holds, ?_⟩
  rcases served.rep with vacant | filled
  · exact Or.inl ⟨vacant.1, vacant.2.1⟩
  · exact Or.inr ⟨filled.nonempty, filled.within⟩

theorem direct_read_appends_sample :
    (∀ call ∈ readCalls [.bytes 3 [4]] 0 (samplePushed.buf 0), InBlock call) ∧
    Ends (outOfMemory (samplePushed.blocks.length + [ReadResult.bytes 3 [4]].length))
      (fillBuffer [.bytes 3 [4]] (samplePushed.buf 0)) (fun done =>
        content done.buf = content (samplePushed.buf 0) ++
          (readCalls [.bytes 3 [4]] 0 (samplePushed.buf 0)).flatMap ReadCall.bytes ∧
        ((done.buf.cb.beginPos = npos ∧ done.buf.cb.endPos = 0) ∨
          (done.buf.cb.beginPos < done.buf.cb.endPos ∧
            done.buf.cb.endPos ≤ done.buf.cb.buffer.length * defaultSize))) :=
  direct_read_appends sample_called 0 [.bytes 3 [4]]

end Npoller.ReadCalls
