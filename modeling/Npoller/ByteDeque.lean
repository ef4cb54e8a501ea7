import Mathlib.Algebra.GroupWithZero.Nat
import Npoller.IoBufferSpec

/-!
The purpose of `io_buffer`: a double-ended queue of bytes. `spec` is that queue
on plain lists and `run` the code's operation; every finite sequence of
operations on a fresh buffer gives the list the specification gives, whatever
bytes and whatever pooled blocks the memory holds at the start.
-/

namespace Npoller.ByteDeque

open Outcome SizeT MemContainer IoBuffer IoBufferSpec

variable {born : Nat}

inductive DequeOp where
  | pushBack (src : Option Source)
  | pushFront (src : Option Source)
  | popFront (size : Nat)
  | popBack (size : Nat)

def DequeOp.spec (bytes : List Byte) : DequeOp → List Byte
  | .pushBack src => bytes ++ sourceBytes src
  | .pushFront src => sourceBytes src ++ bytes
  | .popFront size => bytes.drop size
  | .popBack size => bytes.take (bytes.length - size)

def DequeOp.run (s : Buf) : DequeOp → Except Fault Buf
  | .pushBack src => pushBackN src s
  | .pushFront src => pushFrontN src s
  | .popFront size => popFrontN size s
  | .popBack size => popBackN size s

def DequeOp.pushes : DequeOp → Nat
  | .pushBack src | .pushFront src => (sourceBytes src).length
  | .popFront _ | .popBack _ => 0

/-- All bytes a sequence pushes; its buffer never holds more. -/
def pushed (ops : List DequeOp) : Nat := (ops.map DequeOp.pushes).sum

theorem spec_length (bytes : List Byte) (op : DequeOp) :
    (op.spec bytes).length ≤ bytes.length + op.pushes := by
  cases op with
  | pushBack src => simp [DequeOp.spec, DequeOp.pushes]
  | pushFront src => simp [DequeOp.spec, DequeOp.pushes, Nat.add_comm]
  | popFront size => simp [DequeOp.spec, DequeOp.pushes]
  | popBack size => simp [DequeOp.spec, DequeOp.pushes]

theorem run_serves {s : Buf} {rest : List BlockId} (op : DequeOp) (rep : Rep s.cb)
    (owns : Owns born s.mem (s.cb.buffer ++ rest)) :
    Ends (outOfMemory (pushNeeds s rest op.pushes)) (op.run s)
      (fun after => Serves born rest s after (op.spec (content s))) := by
  cases op with
  | pushBack src => exact push_back_serves src rep owns
  | pushFront src => exact push_front_serves src rep owns
  | popFront size => exact ends_total (pop_front_serves size rep owns)
  | popBack size => exact ends_total (pop_back_serves size rep owns)

theorem push_needs_mono {s : Buf} {rest : List BlockId} {count total : Nat}
    (budget : (content s).length + count ≤ total) :
    pushNeeds s rest count ≤ total / defaultSize + 1 + rest.length := by
  have blocks : ((content s).length + count) / defaultSize ≤ total / defaultSize :=
    Nat.div_le_div_right budget
  unfold pushNeeds
  omega

/-- What holds while `left` is still to run: the buffer is sound, the list
operations lead from its content to `goal`, and `total` covers what they push. -/
structure Leads (born : Nat) (rest : List BlockId) (total : Nat) (goal : List Byte)
    (left : List DequeOp) (s : Buf) : Prop where
  rep : Rep s.cb
  owns : Owns born s.mem (s.cb.buffer ++ rest)
  reaches : left.foldl DequeOp.spec (content s) = goal
  budget : (content s).length + pushed left ≤ total

theorem step_leads {rest : List BlockId} {total : Nat} {goal : List Byte} (op : DequeOp)
    (left : List DequeOp) (s : Buf) (leads : Leads born rest total goal (op :: left) s) :
    Ends (outOfMemory (total / defaultSize + 1 + rest.length)) (op.run s)
      (Leads born rest total goal left) := by
  have budget := leads.budget
  simp only [pushed, List.map_cons, List.sum_cons] at budget
  have needs : pushNeeds s rest op.pushes ≤ total / defaultSize + 1 + rest.length :=
    push_needs_mono (by omega)
  apply ends_mono (run_serves op leads.rep leads.owns) (out_of_memory_mono needs)
  intro after served
  have grows := spec_length (content s) op
  constructor
  · exact served.rep
  · exact served.owns
  · rw [served.holds]
    exact leads.reaches
  · rw [served.holds, pushed]
    omega

/-- `io_buffer` refines a byte deque: after any sequence of operations on a
fresh buffer the content is the list's, `size()` its length, and `get` its
index function with the exception exactly beyond the end. The run can stop
early only with `std::bad_alloc`, when the pushed bytes and the other buffers
together need `maxBlocks` blocks. -/
theorem io_buffer_refines_byte_deque (ops : List DequeOp) (mem : Mem) (rest : List BlockId)
    (owns : Owns 0 mem rest) :
    Ends (outOfMemory (pushed ops / defaultSize + 1 + rest.length))
      (ops.foldlM DequeOp.run ⟨mem, .fresh⟩) (fun after =>
        let bytes := ops.foldl DequeOp.spec []
        content after = bytes ∧ size after.cb = bytes.length ∧
        (∀ n, (inside : n < bytes.length) → getByte n after = .ok bytes[n]) ∧
        ∀ n, bytes.length ≤ n → getByte n after = .error (.logicError "index out of bounds!")) := by
  have start : content ⟨mem, .fresh⟩ = [] := vacant_content ⟨rfl, rfl, Nat.zero_le 1⟩
  have leads : Leads 0 rest (pushed ops) (ops.foldl DequeOp.spec []) ops ⟨mem, .fresh⟩ :=
    ⟨fresh_rep, owns, by rw [start], by rw [start, List.length_nil, Nat.zero_add]⟩
  apply ends_weaken (ends_foldlM step_leads leads)
  rintro after ⟨rep, owned, holds, _⟩
  have bounded := owns_buffer_length owned
  dsimp only
  rw [← holds, List.foldl_nil]
  refine ⟨rfl, size_content rep bounded, ?_, ?_⟩
  · intro n inside
    rw [get_byte_content n rep bounded, List.getElem?_eq_getElem inside]
  · intro n outside
    rw [get_byte_content n rep bounded, List.getElem?_eq_none outside]

/-- A run over a pool that already holds a used block and beside a foreign one. -/
theorem io_buffer_refines_byte_deque_pooled :
    let src : Source := ⟨[1, 2, 3], by decide⟩
    let mem : Mem := ⟨fun _ _ => 9, 2, [], [0], 1, capacityFor 0x40000000⟩
    let ops : List DequeOp := [.pushBack src, .popFront 2, .pushFront src, .popBack 1]
    Ends (outOfMemory (pushed ops / defaultSize + 1 + 1)) (ops.foldlM DequeOp.run ⟨mem, .fresh⟩)
      (fun after =>
        let bytes := ops.foldl DequeOp.spec []
        content after = bytes ∧ size after.cb = bytes.length ∧
        (∀ n, (inside : n < bytes.length) → getByte n after = .ok bytes[n]) ∧
        ∀ n, bytes.length ≤ n → getByte n after = .error (.logicError "index out of bounds!")) :=
  io_buffer_refines_byte_deque _ _ [1]
    ⟨by decide, by decide, by decide⟩

end Npoller.ByteDeque
