import Npoller.IoWrite
import Npoller.DirectIoSpec
import Npoller.StepSystem

/-!
The byte stream an io sends: `push_back_n` calls of write operations interleaved
with `direct_write`. `pushed` collects all bytes ever pushed, `accepted` all
bytes the kernel took. Each `write(2)` is handed the start of the block `begin`
lies in, so the stream is the pushed one while all accepting calls are made with
`begin` at a block start; the number of bytes is right in every run.
-/

namespace Npoller.WriteStream

open Outcome MemContainer IoBuffer IoBufferSpec DirectIo DirectIoSpec IoWrite StepSystem
  TransferRules

structure Stream where
  s : IoBuf
  pushed : List Byte
  accepted : List Byte

inductive StreamOp where
  | push (src : Option Source)
  | send (results : List WriteResult)

def StreamOp.run (before : Stream) : StreamOp → Except Fault Stream
  | .push src => do
      let buf ← pushBackN src before.s.buf
      .ok { before with
        s := ⟨buf.mem, { before.s.io with writeBuffer := buf.cb }⟩
        pushed := before.pushed ++ sourceBytes src }
  | .send results => do
      let wrote ← directWrite results before.s
      .ok { before with s := wrote.after, accepted := before.accepted ++ wrote.accepted }

/-- A run starts with any content anywhere in its blocks; `rest` are the blocks
of other buffers. -/
def streamSystem (rest : List BlockId) : System Stream StreamOp where
  init before := Rep before.s.io.writeBuffer ∧
    Owns 0 before.s.mem (before.s.io.writeBuffer.buffer ++ rest) ∧
    before.pushed = content before.s.buf ∧ before.accepted = []
  step before op after := op.run before = .ok after

/-- Each `write(2)` of the step that the kernel accepts is made with `begin` at
the start of a block. -/
def AtBlockStart (before : Stream) : StreamOp → Prop
  | .push _ => True
  | .send results => Open before.s.io → BlockStarts results before.s.io.writeBuffer

structure Streaming (rest : List BlockId) (state : Stream) : Prop where
  rep : Rep state.s.io.writeBuffer
  owns : Owns 0 state.s.mem (state.s.io.writeBuffer.buffer ++ rest)

variable {rest : List BlockId} {before after : Stream}

def Ordered (state : Stream) : Prop :=
  state.accepted ++ content state.s.buf = state.pushed

def Counted (state : Stream) : Prop :=
  state.accepted.length + (content state.s.buf).length = state.pushed.length

/-- What one step keeps: the shape and the count always, the order when the
accepting calls start at block starts. -/
structure Streams (rest : List BlockId) (before : Stream) (op : StreamOp) (after : Stream) :
    Prop where
  keeps : Streaming rest after
  counts : Counted before → Counted after
  orders : AtBlockStart before op → Ordered before → Ordered after

theorem push_streams (src : Option Source) (streaming : Streaming rest before) :
    Ends allocFails ((StreamOp.push src).run before) (Streams rest before (.push src)) := by
  have pushes : Ends _ (pushBackN src before.s.buf) _ :=
    push_back_serves src streaming.rep streaming.owns
  apply ends_bind (ends_mono pushes (fun _ thrown => thrown.1) (fun _ served => served))
  intro buf served
  have holds := served.holds
  constructor
  · exact ⟨served.rep, served.owns⟩
  · intro counted
    change before.accepted.length + (content buf).length = (before.pushed ++ sourceBytes src).length
    rw [holds, List.length_append, List.length_append, ← Nat.add_assoc]
    exact congrArg (· + _) counted
  · intro _ ordered
    change before.accepted ++ content buf = before.pushed ++ sourceBytes src
    rw [holds, ← List.append_assoc]
    exact congrArg (· ++ _) ordered

theorem send_streams (results : List WriteResult) (streaming : Streaming rest before) :
    Ends allocFails ((StreamOp.send results).run before)
      (Streams rest before (.send results)) := by
  apply ends_bind (ends_total (direct_write_spec results streaming.rep streaming.owns))
  intro wrote writes
  have holds := writes.serves.holds
  have reach := writes.reach
  constructor
  · exact ⟨writes.serves.rep, writes.serves.owns⟩
  · intro counted
    change (before.accepted ++ wrote.accepted).length + (content wrote.after.buf).length =
      before.pushed.length
    rw [holds, List.length_append, List.length_drop, Nat.add_assoc, Nat.add_sub_cancel' reach]
    exact counted
  · intro aligned ordered
    have sent := writes.exact aligned
    change (before.accepted ++ wrote.accepted) ++ content wrote.after.buf = before.pushed
    rw [holds, List.append_assoc]
    have whole : wrote.accepted ++ (content before.s.buf).drop wrote.accepted.length =
        content before.s.buf := by
      calc wrote.accepted ++ (content before.s.buf).drop wrote.accepted.length
          = (content before.s.buf).take wrote.accepted.length ++
              (content before.s.buf).drop wrote.accepted.length := congrArg (· ++ _) sent
        _ = content before.s.buf := List.take_append_drop _ _
    rw [whole]
    exact ordered

theorem run_streams (op : StreamOp) (streaming : Streaming rest before) :
    Ends allocFails (op.run before) (Streams rest before op) := by
  cases op with
  | push src => exact push_streams src streaming
  | send results => exact send_streams results streaming

theorem bytes_counted {state : Stream} (reached : Reachable (streamSystem rest) state) :
    Streaming rest state ∧ Counted state := by
  apply invariant _ _ reached
  · rintro before ⟨rep, owns, pushed, accepted⟩
    refine ⟨⟨rep, owns⟩, ?_⟩
    rw [Counted, pushed, accepted, List.length_nil, Nat.zero_add]
  · rintro before op after ⟨streaming, counted⟩ _ moves
    have streams := ends_value (run_streams op streaming) moves
    exact ⟨streams.keeps, streams.counts counted⟩

/-- While all accepting calls start at a block start, what the kernel accepted
followed by what is still queued is what was pushed. -/
theorem accepted_then_queued {state : Stream}
    (reached : ReachableBy (streamSystem rest) AtBlockStart state) :
    state.accepted ++ content state.s.buf = state.pushed := by
  have kept : Streaming rest state ∧ Ordered state := by
    apply invariant _ _ reached
    · rintro before ⟨rep, owns, pushed, accepted⟩
      refine ⟨⟨rep, owns⟩, ?_⟩
      rw [Ordered, pushed, accepted, List.nil_append]
    · rintro before op after ⟨streaming, ordered⟩ aligned moves
      have streams := ends_value (run_streams op streaming) moves
      exact ⟨streams.keeps, streams.orders aligned ordered⟩
  exact kept.2

section Samples

def plainIo (haveWrite : Nat) (writeBuffer : ControlBlock) : Io :=
  { fd := 5, valid := true, managed := true, readable := false, writable := true
    writeBusy := false, haveWrite, writeBuffer
    readList := [], writeList := [], waitWriteList := [] }

def opened : Stream := ⟨⟨Mem.initial (fun _ _ => 9) 0x40000000, plainIo 0 .fresh⟩, [], []⟩

def twoQueued : Stream :=
  ⟨⟨{ opened.s.mem with
      cells := Segments.store (Segments.store (fun _ _ => 9) 0 0 1) 0 1 2, next := 1 },
    plainIo 0 ⟨[0], 0, 2⟩⟩, [1, 2], []⟩

/-- Both bytes are sent, with the given bytes on the wire. -/
def twoSent (accepted : List Byte) : Stream :=
  ⟨⟨{ twoQueued.s.mem with container := [0], size := 1 },
    plainIo 2 .fresh⟩, [1, 2], accepted⟩

theorem opened_queues : StreamOp.run opened (.push (some ⟨[1, 2], by decide⟩)) = .ok twoQueued := by
  with_unfolding_all rfl

theorem opened_starts : (streamSystem []).init opened :=
  ⟨fresh_rep, initial_owns _ _, rfl, rfl⟩

/-- One call that takes both bytes. -/
theorem accepted_then_queued_at_once :
    (twoSent [1, 2]).accepted ++ content (twoSent [1, 2]).s.buf = (twoSent [1, 2]).pushed := by
  have queued : AtBlockStart opened (.push (some ⟨[1, 2], by decide⟩)) := trivial
  have aligned : AtBlockStart twoQueued (.send [.accepted 1]) := by
    intro _
    unfold BlockStarts
    decide +kernel
  have sends : StreamOp.run twoQueued (.send [.accepted 1]) = .ok (twoSent [1, 2]) := by
    with_unfolding_all rfl
  exact accepted_then_queued (.next (.next (.start opened_starts) queued opened_queues)
    aligned sends)

/-- Two calls that take one byte each: the kernel gets the first byte twice. -/
theorem accepted_then_queued_in_parts :
    Reachable (streamSystem []) (twoSent [1, 1]) ∧
      (twoSent [1, 1]).accepted ++ content (twoSent [1, 1]).s.buf ≠ (twoSent [1, 1]).pushed := by
  have sends : StreamOp.run twoQueued (.send [.accepted 0, .accepted 0]) =
      .ok (twoSent [1, 1]) := by
    with_unfolding_all rfl
  constructor
  · exact reachable_next (reachable_next (.start opened_starts) opened_queues) sends
  · decide +kernel

end Samples

end Npoller.WriteStream
