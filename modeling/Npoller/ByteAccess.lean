import Npoller.CopyingPops

/-!
The bulk read and the single write of `io_buffer` against `get`. `get_n` clamps
like the copying pop from the front and agrees where that sum does not wrap.
`set` tests `n > end - begin`, so it lets through the index behind the last byte
and, as the difference is 1 in the empty form, the index 1 of an empty buffer.
-/

namespace Npoller.ByteAccess

open Outcome SizeT MemContainer IoBuffer IoBufferSpec TransferRules BufferWorld BufferCalls
  CopyingPops StepSystem Segments

variable {born : Nat} {s : Buf} {rest : List BlockId}

section BulkReads

/-- What a bulk read of `size` bytes from index `n` on is to leave. -/
structure BulkRead (n size : Nat) (s : Buf) (popped : Popped) : Prop where
  count : popped.count = min size ((content s).length - n)
  length : popped.dest.length = popped.count
  reads : ∀ j byte, popped.dest[j]? = some byte → getByte (n + j) s = .ok byte
  same : content popped.buf = content s

def ReadsBulk (n size : Nat) (s : Buf) : Prop :=
  Ends (fun _ => False) (getN n size s) (BulkRead n size s)

theorem get_n_beyond {n : Nat} (size : Nat) (rep : Rep s.cb)
    (owns : Owns born s.mem (s.cb.buffer ++ rest)) (beyond : (content s).length ≤ n) :
    Ends (fun _ => False) (getN n size s) (fun popped =>
      popped.count = 0 ∧ popped.dest = [] ∧ content popped.buf = content s) := by
  have bounded := owns_buffer_length owns
  unfold getN
  rcases rep with vacant | filled
  · rw [if_pos (by rw [vacant.1, vacant.2.1]; exact ⟨rfl, Nat.zero_le _⟩)]
    exact ⟨rfl, rfl, (content_emptied _ _).trans (vacant_content vacant).symm⟩
  · have start := filled_not_npos filled bounded
    rw [content_length filled.within] at beyond
    rw [if_neg (fun empty => start empty.1), filled_difference filled bounded]
    dsimp only
    rw [if_pos beyond]
    exact ⟨rfl, rfl, rfl⟩

theorem get_n_held {n : Nat} (size : Nat) (filled : Filled s.cb)
    (owns : Owns born s.mem (s.cb.buffer ++ rest)) (held : n < (content s).length) :
    ∃ block, s.cb.buffer[(s.cb.beginPos + n) / defaultSize]? = some block ∧
      getN n size s =
        let count := if wsub (wadd (s.cb.beginPos + n) size) 1 ≥ s.cb.endPos then
          s.cb.endPos - (s.cb.beginPos + n) else size
        copyOut s.cb.buffer s.mem count (s.cb.beginPos + n) block >>= fun dest =>
          .ok ⟨dest, count, s⟩ := by
  have bounded := owns_buffer_length owns
  have within := filled.within
  have start := filled_not_npos filled bounded
  rw [content_length within] at held
  have before : s.cb.beginPos + n < s.cb.endPos := by omega
  obtain ⟨block, listed, loaded⟩ := block_of_position (Nat.lt_of_lt_of_le before within)
  refine ⟨block, listed, ?_⟩
  unfold getN
  rw [if_neg (fun empty => start empty.1), filled_difference filled bounded]
  dsimp only
  rw [if_neg (Nat.not_le_of_lt held), wadd_position bounded (by omega),
    wsub_position bounded within (Nat.le_of_lt before), loaded, ok_bind]

theorem get_n_copies {n size count : Nat} (filled : Filled s.cb)
    (owns : Owns born s.mem (s.cb.buffer ++ rest)) (held : n < (content s).length)
    (chosen : (if wsub (wadd (s.cb.beginPos + n) size) 1 ≥ s.cb.endPos then
      s.cb.endPos - (s.cb.beginPos + n) else size) = count)
    (inside : s.cb.beginPos + n + count ≤ s.cb.endPos) :
    getN n size s = .ok ⟨((content s).drop n).take count, count, s⟩ := by
  obtain ⟨block, listed, reads⟩ := get_n_held size filled owns held
  rw [reads, chosen]
  dsimp only
  rw [copy_out_spec (Nat.le_trans inside filled.within) (fun _ => listed), ok_bind, content,
    window_drop, window_take inside]

theorem get_n_overruns {n size : Nat} (filled : Filled s.cb)
    (owns : Owns born s.mem (s.cb.buffer ++ rest)) (held : n < (content s).length)
    (sized : size < wordSize) (wraps : wordSize < s.cb.beginPos + n + size) :
    getN n size s = .error .outOfRange := by
  obtain ⟨block, _, reads⟩ := get_n_held size filled owns held
  have bounded := owns_buffer_length owns
  rw [content_length filled.within] at held
  have before : s.cb.beginPos + n < s.cb.endPos := by omega
  have free := wrapped_not_clamped before (position_fits bounded filled.within) sized wraps
  have inside := Nat.lt_of_lt_of_le before filled.within
  rw [reads]
  dsimp only
  rw [if_neg free, copy_out_wraps bounded inside (Nat.le_of_lt wraps)]
  rfl

theorem copied_reads {n count : Nat} (rep : Rep s.cb) (bounded : s.cb.buffer.length ≤ maxBlocks)
    (j : Nat) (byte : Byte) (found : (((content s).drop n).take count)[j]? = some byte) :
    getByte (n + j) s = .ok byte := by
  obtain ⟨short, _⟩ := List.getElem?_eq_some_iff.mp found
  rw [List.length_take] at short
  rw [List.getElem?_take_of_lt (by omega), List.getElem?_drop] at found
  rw [get_byte_content (n + j) rep bounded, found]

/-- Where `begin + n + size` does not wrap, the count is exact unless that sum is 0. -/
theorem get_n_reads {n size : Nat} (filled : Filled s.cb)
    (owns : Owns born s.mem (s.cb.buffer ++ rest)) (held : n < (content s).length)
    (fits : s.cb.beginPos + n + size ≤ wordSize) :
    ∃ count, getN n size s = .ok ⟨((content s).drop n).take count, count, s⟩ ∧
      count = if s.cb.beginPos + n + size = 0 then (content s).length
        else min size ((content s).length - n) := by
  have bounded := owns_buffer_length owns
  have length := content_length (s := s) filled.within
  have clamp := clamps_iff (show s.cb.beginPos + n < s.cb.endPos by omega)
    (position_fits bounded filled.within) fits
  refine ⟨_, get_n_copies filled owns held rfl ?_, ?_⟩
  · simp only [clamp]
    split
    · omega
    · omega
  · simp only [clamp]
    by_cases zero : s.cb.beginPos + n + size = 0
    · -- `begin + n + size - 1` wraps to the largest number.
      rw [if_pos (Or.inl zero), if_pos zero]
      omega
    · rw [if_neg zero]
      split
      · omega
      · omega

theorem reads_bulk_iff {n size : Nat} (sized : size < wordSize) (rep : Rep s.cb)
    (owns : Owns born s.mem (s.cb.buffer ++ rest)) :
    ReadsBulk n size s ↔ (content s).length ≤ n ∨
      ¬ (s.cb.beginPos + n = 0 ∧ size = 0) ∧ s.cb.beginPos + n + size ≤ wordSize := by
  have bounded := owns_buffer_length owns
  unfold ReadsBulk
  by_cases beyond : (content s).length ≤ n
  · refine ⟨fun _ => Or.inl beyond, fun _ => ?_⟩
    apply ends_weaken (get_n_beyond size rep owns beyond)
    rintro popped ⟨count, dest, same⟩
    refine ⟨?_, ?_, ?_, same⟩
    · rw [count, Nat.sub_eq_zero_of_le beyond, Nat.min_zero]
    · rw [count, dest, List.length_nil]
    · intro j byte found
      rw [dest, List.getElem?_nil] at found
      exact absurd found (Option.some_ne_none byte).symm
  · have held := Nat.lt_of_not_le beyond
    rcases rep with vacant | filled
    · rw [vacant_content vacant] at held
      exact absurd held (Nat.not_lt_zero n)
    · by_cases wraps : wordSize < s.cb.beginPos + n + size
      · rw [get_n_overruns filled owns held sized wraps]
        constructor
        · exact False.elim
        · rintro (none_ | ⟨_, fewer⟩)
          · exact absurd none_ beyond
          · omega
      · have fits := Nat.le_of_not_lt wraps
        obtain ⟨count, read, exact_⟩ := get_n_reads filled owns held fits
        rw [read, ends_ok]
        constructor
        · intro bulk
          have wanted : count = min size ((content s).length - n) := bulk.count
          refine Or.inr ⟨?_, fits⟩
          rintro ⟨start, nothing⟩
          rw [exact_, if_pos (by omega)] at wanted
          omega
        · intro takes
          have some_ := (takes.resolve_left beyond).1
          rw [if_neg (by omega)] at exact_
          refine ⟨exact_, ?_, copied_reads (Or.inr filled) bounded, rfl⟩
          dsimp only
          rw [List.length_take, List.length_drop]
          omega

variable {k : Nat} {w : World k}

/-- `get_n` agrees with `get` exactly where nothing is held at `n`, or
`begin + n + size` does not wrap and is not 0. -/
theorem reads_bulk_when (reached : Reachable (callSystem k) w) (i : Fin k) (n size : Nat)
    (sized : size < wordSize) :
    ReadsBulk n size (w.buf i) ↔ (content (w.buf i)).length ≤ n ∨
      ¬ ((w.buffers i).beginPos + n = 0 ∧ size = 0) ∧
        (w.buffers i).beginPos + n + size ≤ wordSize := by
  have sound := calls_sound reached
  exact reads_bulk_iff sized (sound.rep i) (owns_split i sound.owns)

theorem reads_bulk_when_sample : ReadsBulk 1 1 (samplePushed.buf 0) ↔
    (content (samplePushed.buf 0)).length ≤ 1 ∨
      ¬ ((samplePushed.buffers 0).beginPos + 1 = 0 ∧ 1 = 0) ∧
        (samplePushed.buffers 0).beginPos + 1 + 1 ≤ wordSize :=
  reads_bulk_when sample_called 0 1 1 one_fits

/-- A read of no bytes from index 0 copies both bytes that are held. -/
theorem bulk_read_of_nothing : Reachable (callSystem 2) samplePushed ∧
    ¬ ReadsBulk 0 0 (samplePushed.buf 0) := by
  have sound := calls_sound sample_called
  refine ⟨sample_called, ?_⟩
  rw [reads_bulk_iff (Nat.zero_lt_of_lt one_fits) (sound.rep 0) (owns_split 0 sound.owns),
    sample_length]
  rintro (none_ | ⟨some_, _⟩)
  · omega
  · exact some_ ⟨rfl, rfl⟩

end BulkReads

section Writes

/-- `set` and `get` of one index: both throw, before any block is touched, or what
was set is read back and nothing else has changed. -/
def ReadsSeeWrites (n : Nat) (byte : Byte) (s : Buf) : Prop :=
  (n ≥ size s.cb ∧ getByte n s = .error (.logicError "index out of bounds!") ∧
    setByte n byte s = .error (.logicError "Buffer Overflow!")) ∨
  (n < size s.cb ∧ (∃ seen, getByte n s = .ok seen) ∧
    Ends (fun _ => False) (setByte n byte s) (fun after =>
      getByte n after = .ok byte ∧ (∀ m, m ≠ n → getByte m after = getByte m s) ∧
      size after.cb = size s.cb))

theorem set_byte_throws (s : Buf) (n : Nat) (byte : Byte) (what : String) :
    setByte n byte s = .error (.logicError what) ↔
      what = "Buffer Overflow!" ∧ n > wsub s.cb.endPos s.cb.beginPos := by
  unfold setByte
  split
  · rename_i beyond
    simp [beyond, eq_comm]
  · rename_i inside
    unfold blockAt
    split
    · simp [inside]
    · change Except.error Fault.outOfRange = _ ↔ _
      simp [inside]

theorem set_byte_stores {n : Nat} (byte : Byte) (filled : Filled s.cb)
    (owns : Owns born s.mem (s.cb.buffer ++ rest)) (held : n < (content s).length) :
    ∃ after, setByte n byte s = .ok after ∧ after.cb = s.cb ∧
      content after = (content s).set n byte := by
  have bounded := owns_buffer_length owns
  have within := filled.within
  rw [content_length within] at held
  have inside : s.cb.beginPos + n < s.cb.buffer.length * defaultSize := by omega
  obtain ⟨block, listed, loaded⟩ := block_of_position inside
  unfold setByte
  rw [filled_difference filled bounded, if_neg (by omega), wadd_position bounded (by omega),
    loaded, ok_bind]
  refine ⟨_, rfl, rfl, ?_⟩
  exact window_store block_size_pos (owns_left_unique owns) listed byte s.cb.endPos

theorem stored_reads {n : Nat} {byte : Byte} {after : Buf} (rep : Rep s.cb)
    (bounded : s.cb.buffer.length ≤ maxBlocks) (held : n < (content s).length)
    (same : after.cb = s.cb) (stored : content after = (content s).set n byte) :
    getByte n after = .ok byte ∧ (∀ m, m ≠ n → getByte m after = getByte m s) ∧
      size after.cb = size s.cb := by
  have repAfter : Rep after.cb := by rw [same]; exact rep
  have boundedAfter : after.cb.buffer.length ≤ maxBlocks := by rw [same]; exact bounded
  refine ⟨?_, ?_, by rw [same]⟩
  · rw [get_byte_content n repAfter boundedAfter, stored, List.getElem?_set_self held]
  · intro m other
    rw [get_byte_content m repAfter boundedAfter, get_byte_content m rep bounded, stored,
      List.getElem?_set_ne (Ne.symm other)]

theorem reads_see_writes_iff (n : Nat) (byte : Byte) (rep : Rep s.cb)
    (owns : Owns born s.mem (s.cb.buffer ++ rest)) :
    ReadsSeeWrites n byte s ↔ n ≠ size s.cb ∧ ¬ (size s.cb = 0 ∧ n = 1) := by
  have bounded := owns_buffer_length owns
  have length := size_content rep bounded
  have read := get_byte_content n rep bounded
  unfold ReadsSeeWrites
  by_cases held : n < size s.cb
  · have inside : n < (content s).length := by omega
    rw [List.getElem?_eq_getElem inside] at read
    rcases rep with vacant | filled
    · rw [length, vacant_content vacant] at held
      exact absurd held (Nat.not_lt_zero n)
    · obtain ⟨after, stores, same, stored⟩ := set_byte_stores byte filled owns inside
      have reads := stored_reads (Or.inr filled) bounded inside same stored
      refine ⟨fun _ => ⟨by omega, by omega⟩, fun _ => Or.inr ⟨held, ⟨_, read⟩, ?_⟩⟩
      rw [stores]
      exact reads
  · rw [List.getElem?_eq_none (by omega)] at read
    have throws : ReadsSeeWrites n byte s ↔ n > wsub s.cb.endPos s.cb.beginPos := by
      have thrown := set_byte_throws s n byte "Buffer Overflow!"
      constructor
      · rintro (⟨_, _, overflow⟩ | ⟨inside, _⟩)
        · exact (thrown.mp overflow).2
        · exact absurd inside held
      · intro beyond
        exact Or.inl ⟨Nat.le_of_not_lt held, read, thrown.mpr ⟨rfl, beyond⟩⟩
    unfold ReadsSeeWrites at throws
    rw [throws]
    rcases rep with vacant | filled
    · have empty : size s.cb = 0 := by rw [length, vacant_content vacant, List.length_nil]
      have one : wsub s.cb.endPos s.cb.beginPos = 1 := by
        rw [vacant.1, vacant.2.1]
        simp only [wsub, npos, wordSize]
      rw [one, empty]
      omega
    · rw [filled_difference filled bounded]
      have nonempty := filled.nonempty
      rw [content_length filled.within] at length
      omega

variable {k : Nat} {w : World k}

/-- Reads see writes at every index but the one behind the last byte and, for an
empty buffer, the index 1. -/
theorem reads_see_writes_when (reached : Reachable (callSystem k) w) (i : Fin k) (n : Nat)
    (byte : Byte) :
    ReadsSeeWrites n byte (w.buf i) ↔
      n ≠ size (w.buffers i) ∧ ¬ (size (w.buffers i) = 0 ∧ n = 1) := by
  have sound := calls_sound reached
  exact reads_see_writes_iff n byte (sound.rep i) (owns_split i sound.owns)

theorem reads_see_writes_when_sample : ReadsSeeWrites 1 7 (samplePushed.buf 0) ↔
    1 ≠ size (samplePushed.buffers 0) ∧ ¬ (size (samplePushed.buffers 0) = 0 ∧ 1 = 1) :=
  reads_see_writes_when sample_called 0 1 7

/-- The index behind the two bytes held is written to, and `get` of it throws. -/
theorem write_behind_the_end : Reachable (callSystem 2) samplePushed ∧
    ¬ ReadsSeeWrites 2 7 (samplePushed.buf 0) := by
  have sound := calls_sound sample_called
  refine ⟨sample_called, ?_⟩
  rw [reads_see_writes_iff 2 7 (sound.rep 0) (owns_split 0 sound.owns)]
  rintro ⟨different, _⟩
  exact different (by decide +kernel)

end Writes

end Npoller.ByteAccess
