import Npoller.IoWrite

/-!
The count of sent bytes in `io::direct_write`. The `int` that `write` returns holds
every count of one call, but `write_sum` is an `unsigned int` and the loop has no bound
on its turns, so `have_write`, a `size_t`, gets the sum of all calls modulo 2^32.
-/

namespace Npoller.WriteCount

open Outcome SizeT MemContainer IoBuffer IoBufferSpec DirectIo DirectIoSpec IoWrite

/-- The return values of the `write(2)` calls that take bytes, in order. -/
def takenCounts : List WriteResult → Nat → ControlBlock → List Nat
  | [], _, _ => []
  | result :: results, retryTimes, cb =>
      if Unsent cb then
        match result with
        | .accepted more => min (more + 1) (canWriteBytes cb) :: takenCounts results retryTimes
            { cb with beginPos := cb.beginPos + min (more + 1) (canWriteBytes cb) }
        | .zero errno | .failed errno =>
            if Retries errno retryTimes then takenCounts results (retryTimes + 1) cb else []
      else []

def returnedCounts (results : List WriteResult) (s : IoBuf) : List Nat :=
  if Open s.io then takenCounts results 0 s.io.writeBuffer else []

def total : List Nat → Nat
  | [] => 0
  | count :: counts => count + total counts

def intMax : Nat := 2147483647

/-- `have_write` grows by what `write_buffer` shrinks, and no `int` is too small. -/
structure CountsSent (results : List WriteResult) (s : IoBuf) : Prop where
  fits : ∀ count ∈ returnedCounts results s, count ≤ intMax
  counts : Ends (fun _ => False) (directWrite results s) (fun wrote =>
    wrote.after.io.haveWrite + (content wrote.after.buf).length =
      s.io.haveWrite + (content s.buf).length)

variable {cb : ControlBlock} {mem : Mem} {s : IoBuf} {rest : List BlockId}

theorem taken_counts_fit (results : List WriteResult) (retryTimes : Nat) (sending : Sending cb) :
    ∀ count ∈ takenCounts results retryTimes cb, count ≤ defaultSize := by
  induction results generalizing retryTimes cb with
  | nil => exact List.forall_mem_nil _
  | cons result results ih =>
      unfold takenCounts
      split
      · rename_i unsent
        obtain ⟨_, _, fits⟩ := can_write_bytes_spec sending unsent
        cases result with
        | accepted more =>
            refine List.forall_mem_cons.mpr ⟨?_, ih retryTimes (sending_advance sending unsent more)⟩
            omega
        | zero errno | failed errno =>
            dsimp only
            split
            · exact ih (retryTimes + 1) sending
            · exact List.forall_mem_nil _
      · exact List.forall_mem_nil _

theorem idle_takes_nothing (results : List WriteResult) (retryTimes : Nat) (idle : ¬Unsent cb) :
    takenCounts results retryTimes cb = [] := by
  cases results with
  | nil => rfl
  | cons result results =>
      unfold takenCounts
      exact if_neg idle

theorem accepted_counted (results : List WriteResult) (retryTimes writeSum : Nat)
    (sending : Sending cb) :
    Ends (fun _ => True) (directWriteLoop mem results retryTimes writeSum cb) (fun done =>
      done.accepted.length = total (takenCounts results retryTimes cb)) := by
  induction results generalizing retryTimes writeSum cb with
  | nil =>
      by_cases unsent : Unsent cb
      · obtain ⟨block, requested, _⟩ := write_request_spec sending unsent
        rw [directWriteLoop, requested]
        rfl
      · rw [write_loop_sent unsent]
        rfl
  | cons result results ih =>
      by_cases unsent : Unsent cb
      · obtain ⟨block, requested, _⟩ := write_request_spec sending unsent
        cases result with
        | accepted more =>
            rw [directWriteLoop, requested, takenCounts, if_pos unsent]
            apply ends_bind (ih retryTimes _ (sending_advance sending unsent more))
            intro done counted
            change (taken mem block _ ++ done.accepted).length = _
            rw [List.length_append, counted, total, taken, List.length_map, List.length_range]
        | zero errno | failed errno =>
            rw [directWriteLoop, requested, takenCounts, if_pos unsent, ok_bind]
            dsimp only
            by_cases again : Retries errno retryTimes
            · rw [if_pos again, if_pos again]
              exact ih (retryTimes + 1) writeSum sending
            · rw [if_neg again, if_neg again]
              rfl
      · rw [write_loop_sent unsent, idle_takes_nothing _ _ unsent]
        rfl

theorem drain_counts (results : List WriteResult) {s : Buf} (sending : Sending s.cb) :
    Ends (fun _ => True) (drainBuffer results s) (fun done =>
      done.accepted.length = total (takenCounts results 0 s.cb)) := by
  apply ends_bind (accepted_counted results 0 0 sending)
  intro done counted
  dsimp only
  cases shrinkSize
      ⟨s.mem, if done.cb.beginPos = done.cb.endPos then done.cb.emptied else done.cb⟩ with
  | error fault => exact trivial
  | ok buf => exact counted

theorem filled_sending (filled : Filled cb) (bounded : cb.buffer.length ≤ maxBlocks) :
    Sending cb := ⟨Nat.le_of_lt filled.nonempty, filled.within, bounded⟩

theorem returned_counts_fit (results : List WriteResult) (rep : Rep s.io.writeBuffer)
    (owns : Owns 0 s.mem (s.io.writeBuffer.buffer ++ rest)) :
    ∀ count ∈ returnedCounts results s, count ≤ intMax := by
  have small : defaultSize ≤ intMax := by
    simp only [defaultSize, intMax]
    omega
  unfold returnedCounts
  split
  · rcases rep with vacant | filled
    · rw [idle_takes_nothing results 0 (fun unsent => unsent.1 vacant.1)]
      exact List.forall_mem_nil _
    · have sending := filled_sending filled (owns_buffer_length owns)
      exact fun count member => Nat.le_trans (taken_counts_fit results 0 sending count member) small
  · exact List.forall_mem_nil _

theorem direct_write_counts (results : List WriteResult) (rep : Rep s.io.writeBuffer)
    (owns : Owns 0 s.mem (s.io.writeBuffer.buffer ++ rest)) :
    Ends (fun _ => True) (directWrite results s) (fun wrote =>
      wrote.accepted.length = total (returnedCounts results s)) := by
  unfold directWrite returnedCounts
  by_cases open_ : Open s.io
  · rw [if_neg (not_not.mpr open_), if_pos open_]
    rcases rep with vacant | filled
    · rw [idle_takes_nothing results 0 (fun unsent => unsent.1 vacant.1)]
      have drained := drain_buffer_spec (s := s.buf) results (Or.inl vacant) owns
      apply ends_bind (ends_total drained)
      intro done drains
      have reach := drains.reach
      rw [vacant_content (s := s.buf) vacant] at reach
      exact Nat.le_zero.mp reach
    · have sending := filled_sending filled (owns_buffer_length owns)
      exact ends_bind (drain_counts (s := s.buf) results sending) (fun _ counted => counted)
  · rw [if_pos open_, if_neg open_]
    rfl

theorem counts_iff (results : List WriteResult) (word : s.io.haveWrite < wordSize)
    (rep : Rep s.io.writeBuffer) (owns : Owns 0 s.mem (s.io.writeBuffer.buffer ++ rest)) :
    Ends (fun _ => False) (directWrite results s) (fun wrote =>
      wrote.after.io.haveWrite + (content wrote.after.buf).length =
        s.io.haveWrite + (content s.buf).length) ↔ total (returnedCounts results s) < uintSize ∧
      s.io.haveWrite + total (returnedCounts results s) < wordSize := by
  apply ends_iff (ends_and (direct_write_spec results rep owns)
    (direct_write_counts results rep owns))
  rintro wrote ⟨writes, counted⟩
  have reach := writes.reach
  have some_ : 0 < uintSize := by
    simp only [uintSize]
    omega
  rw [counted] at reach
  rw [writes.counted word, writes.serves.holds, List.length_drop, counted]
  have most := Nat.mod_lt (total (returnedCounts results s)) some_
  have fewer := Nat.mod_le (total (returnedCounts results s)) uintSize
  constructor
  · intro same
    -- A wrap in either type leaves less than was accepted.
    have added := Nat.mod_le (s.io.haveWrite + total (returnedCounts results s) % uintSize) wordSize
    have below : wadd s.io.haveWrite (total (returnedCounts results s) % uintSize) < wordSize :=
      Nat.mod_lt _ (Nat.zero_lt_of_lt word)
    rw [wadd] at same below
    constructor <;> omega
  · rintro ⟨short, fits⟩
    rw [Nat.mod_eq_of_lt short, wadd_exact fits]
    omega

/-- The count is exact if and only if the calls of one `direct_write` take fewer than
2^32 bytes together and `have_write` has room for them. -/
theorem sent_count_exact_when (results : List WriteResult) (word : s.io.haveWrite < wordSize)
    (rep : Rep s.io.writeBuffer) (owns : Owns 0 s.mem (s.io.writeBuffer.buffer ++ rest)) :
    CountsSent results s ↔ total (returnedCounts results s) < uintSize ∧
      s.io.haveWrite + total (returnedCounts results s) < wordSize := by
  have counts := counts_iff results word rep owns
  have fit := returned_counts_fit results rep owns
  exact ⟨fun sent => counts.mp sent.counts, fun short => ⟨fit, counts.mpr short⟩⟩

section Samples

/-- A buffer whose `count` blocks are full, on an io that may be written to. -/
def fullBlocks (count : Nat) : IoBuf :=
  ⟨{ cells := fun _ _ => 9, next := count, deleted := [], container := [], size := 0
     maxSize := minCapacity },
    { fd := 5, valid := true, managed := true, readable := false, writable := true
      writeBusy := false, haveWrite := 0
      writeBuffer := ⟨List.range count, 0, count * defaultSize⟩
      readList := [], writeList := [], waitWriteList := [] }⟩

theorem full_blocks_rep {count : Nat} (some_ : 0 < count) :
    Rep (fullBlocks count).io.writeBuffer := by
  have pos := block_size_pos
  refine Or.inr ⟨Nat.mul_pos some_ pos, ?_, pos, ?_⟩
  · change count * defaultSize ≤ (List.range count).length * defaultSize
    rw [List.length_range]
  · change (List.range count).length ≤ count * defaultSize / defaultSize + 1
    rw [List.length_range, Nat.mul_div_cancel _ pos]
    exact Nat.le_succ count

theorem full_blocks_owns {count : Nat} (few : count ≤ maxBlocks) :
    Owns 0 (fullBlocks count).mem ((fullBlocks count).io.writeBuffer.buffer ++ []) := by
  refine ⟨?_, Nat.zero_le _, ?_⟩
  · change (List.range count ++ [] ++ ([] ++ [])).Perm (List.range count)
    rw [List.append_nil, List.append_nil]
    simp
  · change count ≤ 0 + maxBlocks
    omega

theorem whole_blocks_taken {index count : Nat} (buffer : List BlockId)
    (few : index + count ≤ maxBlocks) :
    takenCounts (List.replicate count (.accepted (defaultSize - 1))) 0
      ⟨buffer, index * defaultSize, (index + count) * defaultSize⟩ =
      List.replicate count defaultSize := by
  have pos := block_size_pos
  have limit := bytes_bounded few
  induction count generalizing index with
  | zero => rfl
  | succ count ih =>
      have room : (index + 1) * defaultSize ≤ (index + (count + 1)) * defaultSize :=
        Nat.mul_le_mul_right _ (by omega)
      have next : (index + 1) * defaultSize = index * defaultSize + defaultSize :=
        Nat.succ_mul index defaultSize
      have unsent : Unsent ⟨buffer, index * defaultSize, (index + (count + 1)) * defaultSize⟩ := by
        refine ⟨?_, ?_, ?_⟩
        · simp only [npos]
          omega
        · simp only
          omega
        · simp only
          omega
      have offered : canWriteBytes ⟨buffer, index * defaultSize,
          (index + (count + 1)) * defaultSize⟩ = defaultSize := by
        have apart : index + (count + 1) ≠ index := by omega
        rw [canWriteBytes, Nat.mul_div_cancel _ pos, Nat.mul_div_cancel _ pos, if_neg apart,
          Nat.mul_mod_left, Nat.sub_zero]
      have whole : min (defaultSize - 1 + 1) defaultSize = defaultSize := by omega
      rw [List.replicate_succ, takenCounts, if_pos unsent, offered, whole, List.replicate_succ,
        ← next]
      have same : index + (count + 1) = index + 1 + count := by omega
      rw [same] at few limit ⊢
      exact congrArg _ (ih few limit)

theorem total_replicate (count size : Nat) : total (List.replicate count size) = count * size := by
  induction count with
  | zero => exact (Nat.zero_mul size).symm
  | succ count ih => rw [List.replicate_succ, total, ih, Nat.succ_mul, Nat.add_comm]

theorem none_held (count : Nat) : (fullBlocks count).io.haveWrite < wordSize := by
  simp only [fullBlocks, wordSize]
  omega

/-- 4 GiB that are sent in one call of `direct_write` are not counted at all. -/
theorem four_gigabytes_lost :
    (fullBlocks 2048).io.haveWrite < wordSize ∧ Rep (fullBlocks 2048).io.writeBuffer ∧
    Owns 0 (fullBlocks 2048).mem ((fullBlocks 2048).io.writeBuffer.buffer ++ []) ∧
    ¬CountsSent (List.replicate 2048 (.accepted (defaultSize - 1))) (fullBlocks 2048) := by
  have few : 2048 ≤ maxBlocks := by decide
  have rep := full_blocks_rep (show 0 < 2048 by omega)
  have owns := full_blocks_owns few
  refine ⟨none_held 2048, rep, owns, ?_⟩
  intro sent
  have short := ((counts_iff _ (none_held 2048) rep owns).mp sent.counts).1
  have taken := whole_blocks_taken (List.range 2048) (show 0 + 2048 ≤ maxBlocks by omega)
  rw [Nat.zero_mul, Nat.zero_add] at taken
  have returned : returnedCounts (List.replicate 2048 (.accepted (defaultSize - 1)))
      (fullBlocks 2048) = List.replicate 2048 defaultSize := (if_pos ⟨rfl, rfl⟩).trans taken
  rw [returned, total_replicate] at short
  simp only [defaultSize, uintSize] at short
  omega

/-- A single full block is counted. -/
theorem sent_count_exact_when_block :
    CountsSent [.accepted (defaultSize - 1)] (fullBlocks 1) ↔
      total (returnedCounts [.accepted (defaultSize - 1)] (fullBlocks 1)) < uintSize ∧
      (fullBlocks 1).io.haveWrite +
        total (returnedCounts [.accepted (defaultSize - 1)] (fullBlocks 1)) < wordSize :=
  sent_count_exact_when _ (none_held 1) (full_blocks_rep Nat.one_pos) (full_blocks_owns (by decide))

end Samples

end Npoller.WriteCount
