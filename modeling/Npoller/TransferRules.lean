import Npoller.IoBufferTransfer
import Npoller.IoBufferSpec

/-!
What the loops of all transfers share: the pointers they keep across passes,
the position arithmetic of an alignment, and where a spare block lies.
-/

namespace Npoller.TransferRules

open Outcome SizeT MemContainer IoBuffer IoBufferSpec IoBufferTransfer Segments

variable {born : Nat}

/-- The only way a buffer operation can stop early. -/
def allocFails (fault : Fault) : Prop := fault = .badAlloc

theorem out_of_memory_fails {held : Nat} (fault : Fault) (thrown : outOfMemory held fault) :
    allocFails fault := thrown.1

section Allocation

/-- The potential of a transfer: what is allocated beyond `base` blocks fits in the
free places behind `stop` and the used up places before `start`. -/
def Frugal (base : Nat) (mem : Mem) (blocks stop start : Nat) : Prop :=
  mem.live * defaultSize + stop ≤ base * defaultSize + blocks * defaultSize + start

variable {base blocks stop start : Nat} {mem after : Mem}

theorem frugal_live (frugal : Frugal base mem blocks stop start)
    (tight : blocks * defaultSize + start < stop + defaultSize) : mem.live ≤ base := by
  unfold Frugal at frugal
  have below : mem.live * defaultSize < (base + 1) * defaultSize := by
    rw [Nat.succ_mul]
    omega
  exact Nat.le_of_lt_succ (Nat.lt_of_mul_lt_mul_right below)

theorem frugal_new (frugal : Frugal base mem blocks stop start)
    (grown : after.live = mem.live + 1) : Frugal base after (blocks + 1) stop start := by
  unfold Frugal at *
  rw [grown, Nat.succ_mul, Nat.succ_mul]
  omega

theorem frugal_shift (frugal : Frugal base mem blocks stop start) (count : Nat) :
    Frugal base mem blocks (stop + count) (start + count) := by
  unfold Frugal at *
  omega

theorem frugal_unshift (frugal : Frugal base mem blocks stop start) (count : Nat)
    (filled : count ≤ stop) (ahead : count ≤ start) :
    Frugal base mem blocks (stop - count) (start - count) := by
  unfold Frugal at *
  omega

theorem frugal_start (low : mem.live ≤ base) (within : stop ≤ blocks * defaultSize) :
    Frugal base mem blocks stop start := by
  have bytes := Nat.mul_le_mul_right defaultSize low
  unfold Frugal
  omega

theorem frugal_lent (few : mem.live ≤ base + 1) (some_ : 0 < blocks) (order : stop ≤ start) :
    Frugal base mem blocks stop start := by
  have bytes := Nat.mul_le_mul_right defaultSize few
  have room := Nat.le_mul_of_pos_left defaultSize some_
  rw [Nat.succ_mul] at bytes
  unfold Frugal
  omega

theorem frugal_take (frugal : Frugal base mem blocks stop start) (unused : defaultSize ≤ start) :
    Frugal base mem (blocks + 1) stop (start - defaultSize) := by
  unfold Frugal at *
  rw [Nat.succ_mul]
  omega

theorem frugal_give (frugal : Frugal base mem (blocks + 1) stop start) :
    Frugal base mem blocks stop (start + defaultSize) := by
  unfold Frugal at *
  rw [Nat.succ_mul] at frugal
  omega

theorem frugal_lower {lower : Nat} (frugal : Frugal base mem blocks stop start)
    (less : lower ≤ stop) : Frugal base mem blocks lower start := by
  unfold Frugal at *
  omega

theorem frugal_raise {higher : Nat} (frugal : Frugal base mem blocks stop start)
    (more : start ≤ higher) : Frugal base mem blocks stop higher := by
  unfold Frugal at *
  omega

end Allocation

theorem copy_byte_frame {mem : Mem} {own rest : List BlockId} {dstPtr : BlockId}
    (srcPtr : BlockId) (owns : Owns born mem (own ++ rest)) (member : dstPtr ∈ own) (dst src : Nat) :
    Owns born (copyByte mem dstPtr dst srcPtr src) (own ++ rest) ∧
      ∀ block ∈ rest, (copyByte mem dstPtr dst srcPtr src).cells block = mem.cells block :=
  ⟨(owns_write _ _ _).mpr owns, write_frame owns member _ _⟩

section Pointers
variable {buffer : List BlockId} {pos : Nat} {block : BlockId}

theorem cached_listed (listed : buffer[pos / defaultSize]? = some block) :
    Cached buffer pos block := fun _ => listed

theorem cached_append (more : List BlockId) (cached : Cached buffer pos block) :
    Cached (buffer ++ more) pos block := by
  intro inside
  obtain ⟨bound, listed⟩ := List.getElem?_eq_some_iff.mp (cached inside)
  rw [List.getElem?_append_left bound, cached inside]

theorem cached_pop {front : BlockId} (cached : Cached (front :: buffer) pos block)
    (behind : defaultSize ≤ pos) : Cached buffer (pos - defaultSize) block := by
  intro inside
  rw [← Nat.mod_eq_sub_mod behind] at inside
  have listed := cached inside
  rwa [← Nat.sub_add_cancel behind, Nat.add_div_right _ block_size_pos,
    List.getElem?_cons_succ] at listed

/-- A pointer for the byte in front of `pos` is one for `pos`, but at a block start. -/
theorem cached_before (after : 0 < pos) (listed : buffer[(pos - 1) / defaultSize]? = some block) :
    Cached buffer pos block := by
  intro inside
  obtain ⟨before, rfl⟩ : ∃ before, pos = before + 1 := ⟨pos - 1, by omega⟩
  rw [same_block inside]
  exact listed

theorem reload_before_listed (after : 0 < pos) (within : pos ≤ buffer.length * defaultSize)
    (small : pos < wordSize) (cached : Cached buffer pos block) :
    ∃ found, reloadBefore buffer pos block = .ok found ∧
      buffer[(pos - 1) / defaultSize]? = some found := by
  obtain ⟨before, rfl⟩ : ∃ before, pos = before + 1 := ⟨pos - 1, by omega⟩
  rw [reloadBefore, wsub_exact after small, Nat.add_sub_cancel]
  by_cases boundary : (before + 1) % defaultSize = 0
  · obtain ⟨found, listed, at_⟩ := block_of_position within
    exact ⟨found, by rw [if_pos boundary, at_], listed⟩
  · refine ⟨block, by rw [if_neg boundary], ?_⟩
    rw [← same_block boundary]
    exact cached boundary

theorem load_before (buffer : List BlockId) {pos : Nat} (after : 0 < pos)
    (within : pos ≤ buffer.length * defaultSize) (small : pos < wordSize) :
    ∃ block, blockAt buffer (wsub pos 1 / defaultSize) = .ok block ∧
      Cached buffer pos block := by
  rw [wsub_exact after small]
  have inside : pos - 1 < buffer.length * defaultSize := by omega
  obtain ⟨block, listed, loaded⟩ := block_of_position inside
  exact ⟨block, loaded, cached_before after listed⟩

end Pointers

section Alignment

theorem mod_add_below {pos step : Nat} (below : pos % defaultSize + step < defaultSize) :
    (pos + step) % defaultSize = pos % defaultSize + step := by
  rw [Nat.add_mod, Nat.mod_eq_of_lt (Nat.lt_of_le_of_lt (Nat.le_add_left _ _) below),
    Nat.mod_eq_of_lt below]

theorem mod_sub_within {pos step : Nat} (within : step ≤ pos % defaultSize) :
    (pos - step) % defaultSize = pos % defaultSize - step := by
  have split := Nat.div_add_mod pos defaultSize
  have lower : pos - step = defaultSize * (pos / defaultSize) + (pos % defaultSize - step) := by
    omega
  have small : pos % defaultSize - step < defaultSize :=
    Nat.lt_of_le_of_lt (Nat.sub_le _ _) (Nat.mod_lt pos block_size_pos)
  rw [lower, Nat.mul_add_mod, Nat.mod_eq_of_lt small]

theorem same_offset {pos stop : Nat} (order : pos ≤ stop)
    (whole : (stop - pos) % defaultSize = 0) : stop % defaultSize = pos % defaultSize := by
  obtain ⟨blocks, span⟩ := Nat.dvd_of_mod_eq_zero whole
  have split : stop = defaultSize * blocks + pos := by omega
  rw [split, Nat.mul_add_mod]

def frontGap (pos : Nat) : Nat :=
  if pos % defaultSize = 0 then 0 else defaultSize - pos % defaultSize

theorem front_gap_inside {pos step : Nat} (below : step < frontGap pos) :
    (pos + step) % defaultSize ≠ 0 := by
  unfold frontGap at below
  split at below
  · omega
  · rw [mod_add_below (by omega)]
    omega

theorem front_gap_reaches (pos : Nat) : (pos + frontGap pos) % defaultSize = 0 := by
  unfold frontGap
  split
  · assumption
  · have small := Nat.mod_lt pos block_size_pos
    have split := Nat.div_add_mod pos defaultSize
    have reached : pos + (defaultSize - pos % defaultSize) =
        defaultSize * (pos / defaultSize) + defaultSize := by omega
    rw [reached, Nat.add_mod_right, Nat.mul_mod_right]

theorem front_gap_small (pos : Nat) : frontGap pos ≤ defaultSize := by
  unfold frontGap
  split
  · exact Nat.zero_le _
  · exact Nat.sub_le _ _

theorem front_gap_same {pos stop : Nat} (offsets : stop % defaultSize = pos % defaultSize) :
    frontGap stop = frontGap pos := by
  rw [frontGap, frontGap, offsets]

theorem back_gap {stop : Nat} (filled : 0 < stop) :
    (if (stop - 1) % defaultSize + 1 < defaultSize then (stop - 1) % defaultSize + 1 else 0) =
      stop % defaultSize := by
  obtain ⟨last, rfl⟩ : ∃ last, stop = last + 1 := ⟨stop - 1, by omega⟩
  rw [Nat.add_sub_cancel]
  split
  · rename_i below
    exact (mod_add_below below).symm
  · have small := Nat.mod_lt last block_size_pos
    have split := Nat.div_add_mod last defaultSize
    have reached : last + 1 = defaultSize * (last / defaultSize) + defaultSize := by omega
    rw [reached, Nat.add_mod_right, Nat.mul_mod_right]

theorem back_gap_inside {pos step : Nat} (below : step < pos % defaultSize) :
    (pos - step) % defaultSize ≠ 0 := by
  rw [mod_sub_within (Nat.le_of_lt below)]
  omega

theorem back_gap_reaches (pos : Nat) : (pos - pos % defaultSize) % defaultSize = 0 := by
  rw [mod_sub_within (Nat.le_refl _), Nat.sub_self]

theorem word_whole_blocks : wordSize = defaultSize * 8796093022208 := by
  simp only [wordSize, defaultSize]

theorem same_offset_wrapped {left right : Nat} (small : right < wordSize)
    (whole : wsub left right % defaultSize = 0) : left % defaultSize = right % defaultSize := by
  have divides : defaultSize ∣ wordSize := ⟨_, word_whole_blocks⟩
  rw [wsub, Nat.mod_mod_of_dvd _ divides] at whole
  have offsets := same_offset (show right ≤ left + wordSize by omega) whole
  rw [← offsets, word_whole_blocks, Nat.add_mul_mod_self_left]

end Alignment

section SpareBlock

theorem blocks_positive {buffer : List BlockId} {pos : Nat}
    (inside : pos < buffer.length * defaultSize) : 0 < buffer.length := by
  cases buffer with
  | nil => simp at inside
  | cons block buffer => exact Nat.succ_pos _

theorem spare_back_filled {cb : ControlBlock} (some_ : 0 < cb.buffer.length)
    (few : cb.buffer.length ≤ maxBlocks) (spare : SpareBack cb) : 0 < cb.endPos := by
  have small := blocks_fit
  have beyond : maxBlocks < (wordSize - 1) / defaultSize := by
    simp only [maxBlocks, wordSize, defaultSize]
    decide
  apply Nat.pos_of_ne_zero
  intro stop
  have wrapped : wsub 0 1 = wordSize - 1 := by simp only [wsub, wordSize]
  rw [SpareBack, stop, wrapped, wsub_exact some_ (by omega)] at spare
  omega

theorem spare_back_listed {cb : ControlBlock} (some_ : 0 < cb.buffer.length)
    (within : cb.endPos ≤ cb.buffer.length * defaultSize) (few : cb.buffer.length ≤ maxBlocks)
    (spare : SpareBack cb) : ∃ front back, cb.buffer = front ++ [back] ∧
      cb.endPos ≤ front.length * defaultSize := by
  have limit := bytes_bounded few
  have filled := spare_back_filled some_ few spare
  rcases List.eq_nil_or_concat cb.buffer with vacant | ⟨front, back, split⟩
  · rw [vacant, List.length_nil, Nat.zero_mul] at within
    omega
  · rw [List.concat_eq_append] at split
    refine ⟨front, back, split, ?_⟩
    have small := blocks_fit
    have count : cb.buffer.length = front.length + 1 := by simp [split]
    rw [SpareBack, wsub_position few within filled,
      wsub_exact (by omega) (by omega), count, Nat.add_sub_cancel, block_index_iff] at spare
    omega

theorem spare_back_none {cb : ControlBlock} (some_ : 0 < cb.buffer.length * defaultSize)
    (few : cb.buffer.length ≤ maxBlocks) (filled : 0 < cb.endPos) (spare : ¬SpareBack cb) :
    cb.buffer.length * defaultSize < cb.endPos + defaultSize := by
  have small := blocks_fit
  have limit := bytes_bounded few
  have blocks := blocks_positive some_
  unfold SpareBack at spare
  by_cases within : cb.endPos ≤ cb.buffer.length * defaultSize
  · rw [wsub_position few within filled, wsub_exact blocks (by omega), block_index_iff,
      Nat.sub_mul, Nat.one_mul] at spare
    omega
  · have positive := block_size_pos
    omega

end SpareBlock

end Npoller.TransferRules
