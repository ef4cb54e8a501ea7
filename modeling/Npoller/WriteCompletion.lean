import Mathlib.Algebra.GroupWithZero.Nat
import Npoller.IoWrite
import Npoller.StepSystem

/-!
When a write operation is told that it is done. A session is one io with any
number of operations registered, flushed, sent and completed in any order. The
ghost fields are the operations in the order `write_flush` took them, those
notified `Done`, and the bytes the kernel accepted. Credit plus queued bytes is
what the waiting operations are owed; that balance decides every completion.
-/

namespace Npoller.WriteCompletion

open Outcome SizeT MemContainer IoBuffer IoBufferSpec DirectIo DirectIoSpec IoWrite StepSystem
  TransferRules

def owed (ops : List IoOp) : Nat := (ops.map IoOp.size).sum

@[simp] theorem owed_nil : owed [] = 0 := rfl

@[simp] theorem owed_cons (op : IoOp) (ops : List IoOp) : owed (op :: ops) = op.size + owed ops := by
  simp [owed]

@[simp] theorem owed_append (left right : List IoOp) : owed (left ++ right) = owed left + owed right := by
  simp [owed]

def anyFault : Fault → Prop := fun _ => True

/-- `process` appends exactly `size()` bytes and returns true. -/
def WritesItsSize (op : IoOp) : Prop :=
  ∀ (rest : List BlockId) (s : Buf), Rep s.cb → Owns 0 s.mem (s.cb.buffer ++ rest) →
    Ends anyFault (op.process s) (fun done => done.2 = true ∧
      ∃ bytes, bytes.length = op.size ∧ Serves 0 rest s done.1 (content s ++ bytes))

/-- `print_op` of `test/io/iotest.cpp`. -/
def printOp (printStr : Source) (ioId : Int) : IoOp where
  type := .write
  ioId
  size := printStr.bytes.length
  process s := do
    let buf ← pushBackN (some printStr) s
    .ok (buf, true)

theorem print_op_writes_its_size (printStr : Source) (ioId : Int) :
    WritesItsSize (printOp printStr ioId) := by
  intro rest s rep owns
  apply ends_bind (ends_mono (push_back_serves (some printStr) rep owns)
    (fun _ _ => trivial) (fun _ served => served))
  intro buf served
  exact ⟨rfl, printStr.bytes, rfl, served⟩

structure Session where
  s : IoBuf
  flushed : List IoOp
  notified : List IoOp
  accepted : List Byte

inductive SessionOp where
  | register (op : IoOp)
  | flush
  | send (results : List WriteResult)
  | complete

def SessionOp.run (before : Session) : SessionOp → Except Fault Session
  | .register op =>
      .ok { before with s := { before.s with io := (doRegister op before.s.io).io } }
  | .flush => do
      let s ← writeFlush before.s
      .ok { before with s, flushed := before.flushed ++ before.s.io.writeList }
  | .send results => do
      let wrote ← directWrite results before.s
      .ok { before with s := wrote.after, accepted := before.accepted ++ wrote.accepted }
  | .complete =>
      let done := processWrite before.s.io
      .ok { before with
        s := { before.s with io := done.io }
        notified := before.notified ++ done.notified }

/-- A constructed io with any flags, beside buffers that own the blocks `rest`. -/
def sessionSystem (rest : List BlockId) : System Session SessionOp where
  init before := before.s.io.writeBuffer = .fresh ∧ Owns 0 before.s.mem rest ∧
    before.s.io.haveWrite = 0 ∧ before.s.io.writeList = [] ∧ before.s.io.waitWriteList = [] ∧
    before.flushed = [] ∧ before.notified = [] ∧ before.accepted = []
  step before op after := op.run before = .ok after

/-- A write operation keeps its promise, and one `direct_write` sends less than
2^32 bytes, for which the `size_t` has room. -/
def Promised (before : Session) : SessionOp → Prop
  | .register op => op.type = .write → WritesItsSize op
  | .flush | .complete => True
  | .send results => ∀ wrote, directWrite results before.s = .ok wrote →
      wrote.accepted.length < uintSize ∧
        before.s.io.haveWrite + wrote.accepted.length < wordSize

structure Accounted (rest : List BlockId) (state : Session) : Prop where
  rep : Rep state.s.io.writeBuffer
  owns : Owns 0 state.s.mem (state.s.io.writeBuffer.buffer ++ rest)
  promised : ∀ op ∈ state.s.io.writeList, WritesItsSize op
  balance : owed state.s.io.waitWriteList = state.s.io.haveWrite + (content state.s.buf).length
  order : state.flushed = state.notified ++ state.s.io.waitWriteList
  total : owed state.flushed = state.accepted.length + (content state.s.buf).length

variable {rest : List BlockId} {before after : Session}

theorem do_register_frame (op : IoOp) (io : Io) :
    (doRegister op io).io.writeBuffer = io.writeBuffer ∧
    (doRegister op io).io.haveWrite = io.haveWrite ∧
    (doRegister op io).io.waitWriteList = io.waitWriteList ∧
    ((doRegister op io).io.writeList = io.writeList ∨
      op.type = .write ∧ (doRegister op io).io.writeList = io.writeList ++ [op]) := by
  unfold doRegister
  by_cases closed : io.valid = false ∨ io.managed = false
  · simp [closed]
  · rw [if_neg closed]
    by_cases foreign : op.ioId ≠ unspecifiedId ∧ op.ioId ≠ io.fd
    · simp [foreign]
    · rw [if_neg foreign]
      cases op.type with
      | read => by_cases unreadable : io.readable = false <;> simp [unreadable]
      | write => by_cases unwritable : io.writable = false <;> simp [unwritable]

theorem register_accounted (op : IoOp) (promise : op.type = .write → WritesItsSize op)
    (accounted : Accounted rest before) :
    Ends anyFault ((SessionOp.register op).run before) (Accounted rest) := by
  obtain ⟨sameBuffer, sameCredit, sameWaiting, lists⟩ := do_register_frame op before.s.io
  have sameBuf : (IoBuf.mk before.s.mem (doRegister op before.s.io).io).buf = before.s.buf :=
    congrArg (Buf.mk before.s.mem) sameBuffer
  constructor
  · exact sameBuffer ▸ accounted.rep
  · exact sameBuffer ▸ accounted.owns
  · intro other member
    rcases lists with same | ⟨write, grown⟩
    · exact accounted.promised other (same ▸ member)
    · rw [grown, List.mem_append, List.mem_singleton] at member
      rcases member with old | rfl
      · exact accounted.promised other old
      · exact promise write
  · rw [sameWaiting, sameCredit, sameBuf]
    exact accounted.balance
  · rw [sameWaiting]
    exact accounted.order
  · rw [sameBuf]
    exact accounted.total

theorem flush_ops_serves (ops : List IoOp) {s : Buf} (promised : ∀ op ∈ ops, WritesItsSize op)
    (rep : Rep s.cb) (owns : Owns 0 s.mem (s.cb.buffer ++ rest)) :
    Ends anyFault (flushOps ops s) (fun after => ∃ bytes, bytes.length = owed ops ∧
      Serves 0 rest s after (content s ++ bytes)) := by
  induction ops generalizing s with
  | nil =>
      refine ⟨[], rfl, ⟨rep, owns, fun _ _ => rfl, ?_⟩⟩
      rw [List.append_nil]
  | cons op ops ih =>
      apply ends_bind (promised op List.mem_cons_self rest s rep owns)
      rintro done ⟨-, bytes, length, served⟩
      have later := ih (fun other member => promised other (List.mem_cons_of_mem _ member))
        served.rep served.owns
      apply ends_weaken later
      rintro after ⟨more, moreLength, finished⟩
      refine ⟨bytes ++ more, by simp [length, moreLength], ?_⟩
      exact serves_trans served finished

theorem flush_accounted (accounted : Accounted rest before) :
    Ends anyFault (SessionOp.flush.run before) (Accounted rest) := by
  have flushes := flush_ops_serves (s := before.s.buf) before.s.io.writeList accounted.promised
    accounted.rep accounted.owns
  have written : Ends anyFault (writeFlush before.s) (fun s => ∃ bytes,
      bytes.length = owed before.s.io.writeList ∧
      Serves 0 rest before.s.buf s.buf (content before.s.buf ++ bytes) ∧
      s.io.haveWrite = before.s.io.haveWrite ∧ s.io.writeList = [] ∧
      s.io.waitWriteList = before.s.io.waitWriteList ++ before.s.io.writeList) := by
    apply ends_bind flushes
    rintro buf ⟨bytes, length, served⟩
    exact ⟨bytes, length, served, rfl, rfl, rfl⟩
  apply ends_bind written
  rintro s ⟨bytes, length, served, sameCredit, flushed, waiting⟩
  have grown : (content s.buf).length =
      (content before.s.buf).length + owed before.s.io.writeList := by
    rw [served.holds, List.length_append, length]
  constructor
  · exact served.rep
  · exact served.owns
  · simp [flushed]
  · simp only [waiting, sameCredit, grown, owed_append, accounted.balance]
    exact Nat.add_assoc _ _ _
  · simp only [waiting, accounted.order, List.append_assoc]
  · simp only [owed_append, grown, accounted.total]
    exact Nat.add_assoc _ _ _

theorem send_accounted (results : List WriteResult) (accounted : Accounted rest before)
    (short : Promised before (.send results)) :
    Ends anyFault ((SessionOp.send results).run before) (Accounted rest) := by
  have writes := direct_write_spec results accounted.rep accounted.owns
  apply ends_bind (ends_returned (ends_total writes))
  rintro wrote ⟨writes, returned⟩
  have served := writes.serves
  obtain ⟨few, fits⟩ := short wrote returned
  have credit := writes.counted (Nat.lt_of_le_of_lt (Nat.le_add_right _ _) fits)
  rw [Nat.mod_eq_of_lt few, wadd_exact fits] at credit
  have left : (content wrote.after.buf).length + wrote.accepted.length =
      (content before.s.buf).length := by
    rw [served.holds, List.length_drop, Nat.sub_add_cancel writes.reach]
  constructor
  · exact served.rep
  · exact served.owns
  · dsimp only
    rw [writes.unflushed]
    exact accounted.promised
  · dsimp only
    rw [writes.waiting, accounted.balance, credit]
    omega
  · dsimp only
    rw [writes.waiting]
    exact accounted.order
  · dsimp only
    rw [accounted.total, List.length_append]
    omega

/-- `process_write` notifies a first part of the waiting operations, pays for it
out of the credit, and stops at an operation the rest of the credit does not cover. -/
structure Completes (haveWrite : Nat) (waiting : List IoOp) (done : Completed) : Prop where
  split : waiting = done.notified ++ done.waiting
  paid : haveWrite = owed done.notified + done.haveWrite
  stops : ∀ op ops, done.waiting = op :: ops → done.haveWrite < op.size

theorem complete_ops_spec (haveWrite : Nat) (waiting : List IoOp) :
    Completes haveWrite waiting (completeOps haveWrite waiting) := by
  induction waiting generalizing haveWrite with
  | nil =>
      constructor
      · rfl
      · exact (Nat.zero_add haveWrite).symm
      · intro op ops impossible
        cases impossible
  | cons op ops ih =>
      by_cases covered : haveWrite ≥ op.size
      · have later := ih (haveWrite - op.size)
        rw [completeOps, if_pos covered]
        constructor
        · exact congrArg (op :: ·) later.split
        · have paid := later.paid
          simp only [owed_cons]
          omega
        · exact later.stops
      · rw [completeOps, if_neg covered]
        constructor
        · rfl
        · exact (Nat.zero_add haveWrite).symm
        · intro next others same
          cases same
          exact Nat.lt_of_not_ge covered

theorem complete_accounted (accounted : Accounted rest before) :
    Ends anyFault (SessionOp.complete.run before) (Accounted rest) := by
  have completes := complete_ops_spec before.s.io.haveWrite before.s.io.waitWriteList
  have balance := accounted.balance
  constructor
  · exact accounted.rep
  · exact accounted.owns
  · exact accounted.promised
  · have paid := completes.paid
    rw [completes.split, owed_append] at balance
    change owed (completeOps _ _).waiting = (completeOps _ _).haveWrite + (content before.s.buf).length
    omega
  · have order := accounted.order
    rw [completes.split, ← List.append_assoc] at order
    exact order
  · exact accounted.total

theorem complete_stops (moves : SessionOp.complete.run before = .ok after) :
    ∀ op ops, after.s.io.waitWriteList = op :: ops → after.s.io.haveWrite < op.size := by
  cases moves
  exact (complete_ops_spec before.s.io.haveWrite before.s.io.waitWriteList).stops

theorem run_accounted (op : SessionOp) (accounted : Accounted rest before)
    (promised : Promised before op) : Ends anyFault (op.run before) (Accounted rest) := by
  cases op with
  | register op => exact register_accounted op promised accounted
  | flush => exact flush_accounted accounted
  | send results => exact send_accounted results accounted promised
  | complete => exact complete_accounted accounted

theorem reachable_accounted (reached : ReachableBy (sessionSystem rest) Promised before) :
    Accounted rest before := by
  apply invariant _ _ reached
  · rintro state ⟨fresh, owns, credit, unflushed, waiting, flushed, notified, accepted⟩
    have none_ : content state.s.buf = [] := by
      rw [IoBuf.buf, fresh]
      exact vacant_content ⟨rfl, rfl, Nat.zero_le 1⟩
    constructor
    · rw [fresh]
      exact fresh_rep
    · rw [fresh]
      exact owns
    · simp [unflushed]
    · simp [waiting, credit, none_]
    · simp [flushed, notified, waiting]
    · simp [flushed, accepted, none_]
  · intro state op next accounted promised moves
    exact ends_value (run_accounted op accounted promised) moves

/-- Where a list of costs is cut so that the left part is paid and the head of
the right part is not, exactly the left part's prefixes are covered. -/
theorem covered_iff {done waiting : List IoOp} {paid : Nat} (covers : owed done ≤ paid)
    (stops : ∀ op ops, waiting = op :: ops → paid < owed done + op.size) {index : Nat}
    (inside : index < (done ++ waiting).length) :
    index < done.length ↔ owed ((done ++ waiting).take (index + 1)) ≤ paid := by
  constructor
  · intro inFront
    have early : index + 1 ≤ done.length := inFront
    rw [List.take_append_of_le_length early]
    have split : owed (done.take (index + 1)) + owed (done.drop (index + 1)) = owed done := by
      rw [← owed_append, List.take_append_drop]
    omega
  · intro covered
    by_contra late
    have beyond : done.length ≤ index := Nat.le_of_not_lt late
    cases waiting with
    | nil =>
        rw [List.append_nil] at inside
        exact late inside
    | cons op ops =>
        have stop := stops op ops rfl
        have shape : (done ++ op :: ops).take (index + 1) =
            done ++ op :: ops.take (index - done.length) := by
          rw [List.take_append, List.take_of_length_le (Nat.le_succ_of_le beyond),
            Nat.succ_sub beyond, List.take_succ_cons]
        rw [shape, owed_append, owed_cons] at covered
        omega

/-- In every run the operations waiting for completion are owed exactly the credit
and the queued bytes; operations are notified in the order they were flushed; and
right after `process_write` an operation has been notified if and only if the
accepted bytes cover all operations up to it. -/
theorem completion_accounts (reached : ReachableBy (sessionSystem rest) Promised before) :
    owed before.s.io.waitWriteList =
      before.s.io.haveWrite + IoBuffer.size before.s.io.writeBuffer ∧
    before.flushed = before.notified ++ before.s.io.waitWriteList ∧
    ∀ after, SessionOp.complete.run before = .ok after → ∀ index < after.flushed.length,
      (index < after.notified.length ↔
        owed (after.flushed.take (index + 1)) ≤ after.accepted.length) := by
  have accounted := reachable_accounted reached
  have bounded : before.s.io.writeBuffer.buffer.length ≤ maxBlocks :=
    owns_buffer_length accounted.owns
  have sizes : IoBuffer.size before.s.io.writeBuffer = (content before.s.buf).length :=
    size_content (s := before.s.buf) accounted.rep bounded
  refine ⟨sizes ▸ accounted.balance, accounted.order, ?_⟩
  intro after moves index inside
  have later := ends_value (complete_accounted accounted) moves
  have balance := later.balance
  have total := later.total
  rw [later.order] at inside total ⊢
  rw [owed_append] at total
  apply covered_iff (by omega) _ inside
  intro op ops waiting
  have stop := complete_stops moves op ops waiting
  omega

section Sample

def printed : Source := ⟨[72, 105], by decide⟩

def outIo : Io :=
  { fd := 1, valid := true, managed := true, readable := false, writable := true
    writeBusy := false, haveWrite := 0, writeBuffer := .fresh
    readList := [], writeList := [], waitWriteList := [] }

def sessionOpened : Session := ⟨⟨Mem.initial (fun _ _ => 0) 0x40000000, outIo⟩, [], [], []⟩

def sessionRegistered : Session :=
  { sessionOpened with s.io.writeList := [printOp printed 1] }

def sessionFlushed : Session :=
  { sessionOpened with
    s := ⟨{ sessionOpened.s.mem with
        cells := Segments.store (Segments.store (fun _ _ => 0) 0 0 72) 0 1 105, next := 1 },
      { outIo with writeBuffer := ⟨[0], 0, 2⟩, waitWriteList := [printOp printed 1] }⟩
    flushed := [printOp printed 1] }

/-- The kernel took one byte of two and then was full. -/
def sessionHalfSent : Session :=
  { sessionFlushed with
    s.io.writeBuffer := ⟨[0], 1, 2⟩, s.io.haveWrite := 1, s.io.writeBusy := true
    accepted := [72] }

theorem half_sent_reachable : ReachableBy (sessionSystem []) Promised sessionHalfSent := by
  have begins : (sessionSystem []).init sessionOpened :=
    ⟨rfl, initial_owns _ _, rfl, rfl, rfl, rfl, rfl, rfl⟩
  have promise : Promised sessionOpened (.register (printOp printed 1)) :=
    fun _ => print_op_writes_its_size printed 1
  have registers : SessionOp.run sessionOpened (.register (printOp printed 1)) =
      .ok sessionRegistered := by
    with_unfolding_all rfl
  have flushes : SessionOp.flush.run sessionRegistered = .ok sessionFlushed := by
    with_unfolding_all rfl
  have wrote : directWrite [.accepted 0] sessionFlushed.s = .ok ⟨sessionHalfSent.s, [72]⟩ := by
    with_unfolding_all rfl
  have sends : SessionOp.run sessionFlushed (.send [.accepted 0]) = .ok sessionHalfSent := by
    with_unfolding_all rfl
  have short : Promised sessionFlushed (.send [.accepted 0]) := by
    intro other returned
    cases wrote.symm.trans returned
    simp only [uintSize, wordSize]
    decide
  have queued : Promised sessionRegistered .flush := trivial
  exact .next (.next (.next (.start begins) promise registers) queued flushes) short sends

theorem completion_accounts_half_sent :
    owed sessionHalfSent.s.io.waitWriteList =
      sessionHalfSent.s.io.haveWrite + IoBuffer.size sessionHalfSent.s.io.writeBuffer ∧
    sessionHalfSent.flushed = sessionHalfSent.notified ++ sessionHalfSent.s.io.waitWriteList ∧
    ∀ after, SessionOp.complete.run sessionHalfSent = .ok after →
      ∀ index < after.flushed.length, (index < after.notified.length ↔
        owed (after.flushed.take (index + 1)) ≤ after.accepted.length) :=
  completion_accounts half_sent_reachable

end Sample

end Npoller.WriteCompletion
