import Npoller.BufferCalls

/-!
The copying pops of `io_buffer` against the discarding ones of the same name. The
one from the back adds `begin` to an offset that has it already, so it agrees
only where `begin` is 0 or everything is taken. The one from the front clamps by
`begin + size - 1` in `size_t`, so it agrees unless that sum wraps.
-/

namespace Npoller.CopyingPops

open Outcome SizeT MemContainer IoBuffer IoBufferSpec TransferRules BufferWorld BufferCalls
  StepSystem

variable {born : Nat} {s : Buf} {rest : List BlockId}

section Clamp

theorem clamps_iff {pos size stop : Nat} (inside : pos < stop) (small : stop < wordSize)
    (fits : pos + size ≤ wordSize) :
    wsub (wadd pos size) 1 ≥ stop ↔ pos + size = 0 ∨ pos + size > stop := by
  have last : wsub 0 1 ≥ stop := by
    simp only [wsub, wordSize] at *
    omega
  by_cases whole : pos + size = wordSize
  · rw [wadd, whole, Nat.mod_self]
    exact ⟨fun _ => Or.inr small, fun _ => last⟩
  · rw [wadd_exact (by omega)]
    by_cases zero : pos + size = 0
    · rw [zero]
      exact ⟨fun _ => Or.inl rfl, fun _ => last⟩
    · rw [wsub_exact (by omega) (by omega)]
      omega

theorem wrapped_not_clamped {pos size stop : Nat} (inside : pos < stop) (small : stop < wordSize)
    (sized : size < wordSize) (wraps : wordSize < pos + size) :
    ¬ wsub (wadd pos size) 1 ≥ stop := by
  have sum : wadd pos size = pos + size - wordSize := by
    rw [wadd, Nat.mod_eq_sub_mod (Nat.le_of_lt wraps), Nat.mod_eq_of_lt (by omega)]
  rw [sum, wsub_exact (by omega) (by omega)]
  omega

end Clamp

section Back

/-- What a copying pop of `size` bytes from the back is to leave. -/
structure PoppedBack (size : Nat) (s : Buf) (popped : Popped) : Prop where
  count : popped.count = min size (content s).length
  dest : popped.dest = (content s).drop ((content s).length - popped.count)
  left : content popped.buf = (content s).take ((content s).length - popped.count)
  discards : Ends (fun _ => False) (popBackN popped.count s)
    (fun after => content after = content popped.buf)

def PopsBack (size : Nat) (s : Buf) : Prop :=
  Ends (fun _ => False) (popBackInto size s) (PoppedBack size s)

theorem pops_back_iff (size : Nat) (rep : Rep s.cb)
    (owns : Owns born s.mem (s.cb.buffer ++ rest)) :
    PopsBack size s ↔ s.cb.beginPos = 0 ∨ size = 0 ∨ size > (content s).length := by
  apply ends_iff (pop_back_into_serves size rep owns)
  rintro popped ⟨count, dest, served⟩
  rw [backCount] at count
  constructor
  · intro popsBack
    have wanted := popsBack.count
    rw [count] at wanted
    split at wanted
    · omega
    · omega
  · intro takes
    refine ⟨?_, dest, served.holds, ?_⟩
    · rw [count]
      split
      · omega
      · omega
    · apply ends_weaken (pop_back_serves popped.count rep owns)
      intro after discarded
      rw [discarded.holds, served.holds]

variable {k : Nat} {w : World k}

/-- The copying pop from the back is the discarding one exactly where `begin` is
0, no bytes are asked for, or more than there are. -/
theorem pops_back_when (reached : Reachable (callSystem k) w) (i : Fin k) (size : Nat) :
    PopsBack size (w.buf i) ↔ (w.buffers i).beginPos = 0 ∨ size = 0 ∨
      size > (content (w.buf i)).length := by
  have sound := calls_sound reached
  exact pops_back_iff size (sound.rep i) (owns_split i sound.owns)

theorem pops_back_when_sample : PopsBack 1 (samplePushed.buf 0) ↔
    (samplePushed.buffers 0).beginPos = 0 ∨ 1 = 0 ∨ 1 > (content (samplePushed.buf 0)).length :=
  pops_back_when sample_called 0 1

def sampleShifted : World 2 :=
  samplePushed.set ⟨0, Nat.two_pos⟩ ⟨samplePushed.mem, [0], 1, 2⟩

theorem shifted_reachable : Reachable (callSystem 2) sampleShifted := by
  have moves : (callSystem 2).step samplePushed (.op (.popFront 0 1)) sampleShifted := by
    with_unfolding_all rfl
  exact reachable_next sample_called moves

/-- One byte is held behind `begin = 1`, and a pop of one byte returns none. -/
theorem back_pop_skipped : Reachable (callSystem 2) sampleShifted ∧
    ¬ PopsBack 1 (sampleShifted.buf 0) := by
  have sound := calls_sound shifted_reachable
  refine ⟨shifted_reachable, ?_⟩
  have length : (content (sampleShifted.buf 0)).length = 1 :=
    content_length (s := sampleShifted.buf 0) (rep_within (sound.rep 0))
  rw [pops_back_iff 1 (sound.rep 0) (owns_split 0 sound.owns), length]
  decide

end Back

section Front

/-- What a copying pop of `size` bytes from the front is to leave. -/
structure PoppedFront (size : Nat) (s : Buf) (popped : Popped) : Prop where
  count : popped.count = min size (content s).length
  dest : popped.dest = (content s).take popped.count
  left : content popped.buf = (content s).drop popped.count
  discards : Ends (fun _ => False) (popFrontN popped.count s)
    (fun after => content after = content popped.buf)

def PopsFront (size : Nat) (s : Buf) : Prop :=
  Ends (fun _ => False) (popFrontInto size s) (PoppedFront size s)

theorem pop_front_into_counts {size : Nat} (rep : Rep s.cb)
    (owns : Owns born s.mem (s.cb.buffer ++ rest))
    (fits : content s = [] ∨ s.cb.beginPos + size ≤ wordSize) :
    Ends (fun _ => False) (popFrontInto size s) (fun popped =>
      popped.count = (if s.cb.beginPos + size = 0 then (content s).length
        else min size (content s).length) ∧
      popped.dest = (content s).take popped.count ∧
      Serves born rest s popped.buf ((content s).drop popped.count)) := by
  rcases rep with vacant | filled
  · apply ends_weaken (pop_front_into_vacant size vacant owns)
    rintro popped ⟨count, copied⟩
    refine ⟨?_, copied⟩
    rw [count, vacant_content vacant, List.length_nil, Nat.min_zero, ite_self]
  · have bounded := owns_buffer_length owns
    have held := filled.nonempty
    have length : (content s).length = s.cb.endPos - s.cb.beginPos := content_length filled.within
    have clamp := clamps_iff held (position_fits bounded filled.within)
      (fits.resolve_left (filled_content filled))
    refine ends_weaken (pop_front_into_copies filled owns rfl ?_) ?_
    · rw [filled_difference filled bounded]
      split
      · omega
      · rename_i short
        rw [clamp] at short
        omega
    · rintro popped ⟨count, copied⟩
      refine ⟨?_, copied⟩
      rw [count, length, filled_difference filled bounded]
      simp only [clamp]
      by_cases zero : s.cb.beginPos + size = 0
      · rw [if_pos (Or.inl zero), if_pos zero]
      · rw [if_neg zero]
        split
        · omega
        · omega

theorem pop_front_into_overruns {size : Nat} (filled : Filled s.cb)
    (owns : Owns born s.mem (s.cb.buffer ++ rest)) (sized : size < wordSize)
    (wraps : wordSize < s.cb.beginPos + size) : popFrontInto size s = .error .outOfRange := by
  have bounded := owns_buffer_length owns
  have held := filled.nonempty
  have start := filled_not_npos filled bounded
  have free := wrapped_not_clamped held (position_fits bounded filled.within) sized wraps
  have inside := Nat.lt_of_lt_of_le held filled.within
  obtain ⟨block, listed, loaded⟩ := block_of_position inside
  unfold popFrontInto
  rw [if_neg (fun empty => start empty.1), if_neg free, loaded, ok_bind,
    copy_out_wraps bounded inside (Nat.le_of_lt wraps)]
  rfl

theorem pops_front_iff {size : Nat} (sized : size < wordSize) (rep : Rep s.cb)
    (owns : Owns born s.mem (s.cb.buffer ++ rest)) :
    PopsFront size s ↔ content s = [] ∨
      ¬ (s.cb.beginPos = 0 ∧ size = 0) ∧ s.cb.beginPos + size ≤ wordSize := by
  unfold PopsFront
  by_cases fits : content s = [] ∨ s.cb.beginPos + size ≤ wordSize
  · apply ends_iff (pop_front_into_counts rep owns fits)
    rintro popped ⟨count, dest, served⟩
    constructor
    · intro popsFront
      have wanted := popsFront.count
      rw [count] at wanted
      by_cases none_ : content s = []
      · exact Or.inl none_
      · have some_ := List.length_pos_iff.mpr none_
        refine Or.inr ⟨?_, fits.resolve_left none_⟩
        rintro ⟨start, nothing⟩
        rw [start, nothing, if_pos rfl] at wanted
        omega
    · intro takes
      refine ⟨?_, dest, served.holds, ?_⟩
      · rw [count]
        split
        · rename_i zero
          rcases takes with none_ | ⟨some_, _⟩
          · rw [none_, List.length_nil, Nat.min_zero]
          · omega
        · rfl
      · apply ends_weaken (pop_front_serves popped.count rep owns)
        intro after discarded
        rw [discarded.holds, served.holds]
  · obtain ⟨some_, wraps⟩ := not_or.mp fits
    rcases rep with vacant | filled
    · exact absurd (vacant_content vacant) some_
    · rw [pop_front_into_overruns filled owns sized (Nat.lt_of_not_le wraps)]
      constructor
      · exact False.elim
      · rintro (none_ | ⟨_, fewer⟩)
        · exact absurd none_ some_
        · exact absurd fewer wraps

variable {k : Nat} {w : World k}

/-- The copying pop from the front is the discarding one exactly where the buffer is
empty, or `begin + size` does not wrap and `begin` and `size` are not both 0. -/
theorem pops_front_when (reached : Reachable (callSystem k) w) (i : Fin k) (size : Nat)
    (sized : size < wordSize) :
    PopsFront size (w.buf i) ↔ content (w.buf i) = [] ∨
      ¬ ((w.buffers i).beginPos = 0 ∧ size = 0) ∧ (w.buffers i).beginPos + size ≤ wordSize := by
  have sound := calls_sound reached
  exact pops_front_iff sized (sound.rep i) (owns_split i sound.owns)

theorem pops_front_when_sample : PopsFront 1 (samplePushed.buf 0) ↔
    content (samplePushed.buf 0) = [] ∨
      ¬ ((samplePushed.buffers 0).beginPos = 0 ∧ 1 = 0) ∧
        (samplePushed.buffers 0).beginPos + 1 ≤ wordSize :=
  pops_front_when sample_called 0 1 one_fits

theorem sample_length : (content (samplePushed.buf 0)).length = 2 :=
  content_length (s := samplePushed.buf 0) (rep_within ((calls_sound sample_called).rep 0))

/-- A pop of no bytes takes both bytes that are held from `begin = 0` on. -/
theorem front_pop_of_nothing : Reachable (callSystem 2) samplePushed ∧
    ¬ PopsFront 0 (samplePushed.buf 0) := by
  have sound := calls_sound sample_called
  have length := sample_length
  refine ⟨sample_called, ?_⟩
  rw [pops_front_iff (Nat.zero_lt_of_lt one_fits) (sound.rep 0) (owns_split 0 sound.owns)]
  rintro (none_ | ⟨some_, _⟩)
  · rw [none_, List.length_nil] at length
    omega
  · exact some_ ⟨rfl, rfl⟩

end Front

end Npoller.CopyingPops
