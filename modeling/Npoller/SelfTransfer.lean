import Mathlib.Data.List.Rotate
import Npoller.BlockMoves
import Npoller.TransferRules

/-!
Moving bytes from one end of a buffer to its other end. Every pass of an align
loop, a block loop or a byte loop rotates the content; `Turning` is the
invariant of all of them. An align loop is a byte loop that never meets a block
start, so its passes are passes of the byte loop.
-/

namespace Npoller.SelfTransfer

open Outcome SizeT MemContainer IoBuffer IoBufferSpec IoBufferTransfer TransferRules
  BlockMoves Segments

variable {born : Nat}

structure Turning (born : Nat) (rest : List BlockId) (before s : Buf) (bytes : List Byte) : Prop where
  held : s.cb.beginPos < s.cb.endPos
  within : s.cb.endPos ≤ s.cb.buffer.length * defaultSize
  owns : Owns born s.mem (s.cb.buffer ++ rest)
  frame : ∀ block ∈ rest, s.mem.cells block = before.mem.cells block
  holds : content s = bytes
  frugal : Frugal before.mem.live s.mem s.cb.buffer.length s.cb.endPos s.cb.beginPos

section Steps
variable {rest : List BlockId} {before s : Buf} {bytes : List Byte}

theorem turn_left {firstPtr lastPtr : BlockId} (turning : Turning born rest before s bytes)
    (room : s.cb.endPos < s.cb.buffer.length * defaultSize)
    (first : s.cb.buffer[s.cb.beginPos / defaultSize]? = some firstPtr)
    (last : s.cb.buffer[s.cb.endPos / defaultSize]? = some lastPtr) :
    Turning born rest before ⟨copyByte s.mem lastPtr s.cb.endPos firstPtr s.cb.beginPos,
      s.cb.buffer, s.cb.beginPos + 1, s.cb.endPos + 1⟩ (bytes.rotate 1) := by
  have unique := owns_left_unique turning.owns
  obtain ⟨owned, frame⟩ := copy_byte_frame firstPtr turning.owns
    (List.mem_of_getElem? last) s.cb.endPos s.cb.beginPos
  refine ⟨Nat.succ_lt_succ turning.held, room, owned, ?_, ?_, frugal_shift turning.frugal 1⟩
  · intro block foreign
    rw [frame block foreign, turning.frame block foreign]
  · have split : content s = _ := window_head block_size_pos turning.held turning.within first
    rw [← turning.holds, split, List.rotate_cons_succ, List.rotate_zero]
    exact window_store_back block_size_pos unique last turning.held room _

theorem turn_right {firstPtr lastPtr : BlockId} {turned : List Byte}
    (turning : Turning born rest before s (turned.rotate 1)) (room : 0 < s.cb.beginPos)
    (first : s.cb.buffer[(s.cb.beginPos - 1) / defaultSize]? = some firstPtr)
    (last : s.cb.buffer[(s.cb.endPos - 1) / defaultSize]? = some lastPtr) :
    Turning born rest before ⟨copyByte s.mem firstPtr (s.cb.beginPos - 1) lastPtr (s.cb.endPos - 1),
      s.cb.buffer, s.cb.beginPos - 1, s.cb.endPos - 1⟩ turned := by
  have unique := owns_left_unique turning.owns
  have held := turning.held
  have within := turning.within
  obtain ⟨owned, frame⟩ := copy_byte_frame lastPtr turning.owns
    (List.mem_of_getElem? first) (s.cb.beginPos - 1) (s.cb.endPos - 1)
  have order : s.cb.beginPos - 1 + 1 ≤ s.cb.endPos - 1 := by omega
  have inside : s.cb.endPos - 1 ≤ s.cb.buffer.length * defaultSize := by omega
  refine ⟨order, inside, owned, ?_, ?_, frugal_unshift turning.frugal 1 (by omega) room⟩
  · intro block foreign
    rw [frame block foreign, turning.frame block foreign]
  · have stop : s.cb.endPos - 1 + 1 = s.cb.endPos := by omega
    have start : s.cb.beginPos - 1 + 1 = s.cb.beginPos := by omega
    have split : window defaultSize s.mem.cells s.cb.buffer s.cb.beginPos (s.cb.endPos - 1 + 1) = _ :=
      window_last block_size_pos (by omega) (by omega) last
    have moved : content ⟨copyByte s.mem firstPtr (s.cb.beginPos - 1) lastPtr (s.cb.endPos - 1),
        s.cb.buffer, s.cb.beginPos - 1, s.cb.endPos - 1⟩ = _ :=
      window_store_front block_size_pos unique first order inside _
    rw [stop] at split
    rw [start] at moved
    apply List.rotate_injective 1
    calc (content _).rotate 1 = content s := by
          rw [moved, List.rotate_cons_succ, List.rotate_zero]
          exact split.symm
      _ = turned.rotate 1 := turning.holds

end Steps

section ByteLoops
variable {rest : List BlockId} {before s : Buf} {bytes : List Byte} {firstPtr lastPtr : BlockId}

theorem position_small (turning : Turning born rest before s bytes) :
    s.cb.endPos + defaultSize < wordSize := by
  have limit := bytes_bounded (owns_buffer_length turning.owns)
  have within := turning.within
  simp only [wordSize]
  omega

theorem self_room_back_spec (turning : Turning born rest before s bytes)
    (first : Cached s.cb.buffer s.cb.beginPos firstPtr)
    (last : Cached s.cb.buffer s.cb.endPos lastPtr) :
    Ends (outOfMemory before.mem.live) (selfRoomBack s) (fun room => Turning born rest before room bytes ∧
      room.cb.endPos < room.cb.buffer.length * defaultSize ∧
      Cached room.cb.buffer room.cb.beginPos firstPtr ∧
      Cached room.cb.buffer room.cb.endPos lastPtr) := by
  have small := position_small turning
  rcases s with ⟨mem, buffer, beginPos, endPos⟩
  obtain ⟨held, within, owns, frame, holds, frugal⟩ := turning
  unfold selfRoomBack
  split
  · rename_i full
    dsimp only at full held within small first last ⊢
    split
    · rename_i unused
      -- The first block has no byte any more and goes behind the last one.
      cases buffer with
      | nil => simp at within; omega
      | cons front buffer =>
          have positive := block_size_pos
          simp only [List.length_cons, Nat.succ_mul] at within full
          rw [wsub_exact unused (by omega), wsub_exact (by omega) (by omega)]
          have moved : (front :: buffer ++ rest).Perm (buffer ++ [front] ++ rest) := by
            simpa using List.perm_middle.symm
          have order : beginPos - defaultSize < endPos - defaultSize := by omega
          have inside : endPos - defaultSize ≤ buffer.length * defaultSize := by omega
          have room : endPos - defaultSize < (buffer ++ [front]).length * defaultSize := by
            simp only [List.length_append, List.length_singleton, Nat.succ_mul]
            omega
          have thrifty : Frugal before.mem.live mem (buffer ++ [front]).length
              (endPos - defaultSize) (beginPos - defaultSize) := by
            rw [(List.perm_append_singleton front buffer).length_eq]
            exact frugal_unshift frugal defaultSize (by dsimp only; omega) unused
          refine ⟨⟨order, Nat.le_of_lt room, owns_perm owns moved, frame, ?_, thrifty⟩, room,
            cached_append [front] (cached_pop first unused),
            cached_append [front] (cached_pop last (by omega))⟩
          rw [← holds]
          exact (window_extend_back buffer [front] inside).trans
            (window_drop_front unused (Nat.le_of_lt held)).symm
    · have low : mem.live ≤ before.mem.live := frugal_live frugal (by dsimp only; omega)
      apply ends_bind (ends_mono (new_block_owns owns) (out_of_memory_mono low)
        (fun _ post => post))
      rintro ⟨block, next⟩ ⟨owned, same, grown⟩
      have moved : (block :: (buffer ++ rest)).Perm (buffer ++ [block] ++ rest) := by
        simpa using List.perm_middle.symm
      have room : endPos < (buffer ++ [block]).length * defaultSize := by
        have positive := block_size_pos
        simp only [List.length_append, List.length_singleton, Nat.succ_mul]
        omega
      dsimp only at same
      refine ⟨⟨held, Nat.le_of_lt room, owns_perm owned moved, ?_, ?_, ?_⟩, room,
        cached_append [block] first, cached_append [block] last⟩
      · rw [same]
        exact frame
      · rw [← holds]
        simp only [content, same]
        exact window_extend_back buffer [block] within
      · rw [List.length_append, List.length_singleton]
        exact frugal_new frugal grown
  · rename_i room
    exact ⟨⟨held, within, owns, frame, holds, frugal⟩, Nat.lt_of_le_of_ne within room, first, last⟩

theorem self_bytes_to_back_spec (n : Nat) (turning : Turning born rest before s bytes)
    (first : Cached s.cb.buffer s.cb.beginPos firstPtr)
    (last : Cached s.cb.buffer s.cb.endPos lastPtr) :
    Ends (outOfMemory before.mem.live) (selfBytesToBack n firstPtr lastPtr s)
      (fun after => Turning born rest before after (bytes.rotate n)) := by
  induction n generalizing s bytes firstPtr lastPtr with
  | zero => simpa [selfBytesToBack] using turning
  | succ n ih =>
      apply ends_bind (self_room_back_spec turning first last)
      rintro room ⟨ready, free, firstReady, lastReady⟩
      obtain ⟨dst, loaded, dstListed⟩ := reload_listed free lastReady
      obtain ⟨src, fetched, srcListed⟩ :=
        reload_listed (Nat.lt_of_lt_of_le ready.held ready.within) firstReady
      apply ends_bind_ok loaded
      apply ends_bind_ok fetched
      have copied := turn_left ready free srcListed dstListed
      apply ends_weaken (ih copied (cached_next srcListed) (cached_next dstListed))
      intro after turned
      rwa [List.rotate_rotate, Nat.add_comm] at turned

theorem turning_push_front {block : BlockId} {buffer : List BlockId} {mem : Mem} {b e : Nat}
    (held : b < e) (within : e ≤ buffer.length * defaultSize)
    (owns : Owns born mem (block :: buffer ++ rest))
    (frame : ∀ other ∈ rest, mem.cells other = before.mem.cells other)
    (holds : content ⟨mem, buffer, b, e⟩ = bytes)
    (frugal : Frugal before.mem.live mem (buffer.length + 1) e b) :
    Turning born rest before ⟨mem, block :: buffer, b + defaultSize, e + defaultSize⟩ bytes := by
  refine ⟨Nat.add_lt_add_right held _, ?_, owns, frame, ?_, frugal_shift frugal defaultSize⟩
  · simp only [List.length_cons, Nat.succ_mul]
    exact Nat.add_le_add_right within _
  · rw [← holds]
    exact window_extend_front block buffer b e

theorem self_room_front_spec (turning : Turning born rest before s bytes)
    (start : s.cb.beginPos = 0) :
    Ends (outOfMemory before.mem.live) (selfRoomFront s) (fun room => Turning born rest before room bytes ∧
      0 < room.cb.beginPos) := by
  have limit := owns_buffer_length turning.owns
  have positive := block_size_pos
  have filled := Nat.zero_lt_of_lt turning.held
  unfold selfRoomFront
  by_cases spare : SpareBack s.cb
  · rw [if_pos spare]
    obtain ⟨front, back, listed, inside⟩ :=
      spare_back_listed (blocks_positive (Nat.lt_of_lt_of_le filled turning.within))
        turning.within limit spare
    rcases s with ⟨mem, buffer, beginPos, endPos⟩
    obtain ⟨held, within, owns, frame, holds, frugal⟩ := turning
    dsimp only at listed inside start held within owns frame holds ⊢
    subst listed start
    rw [List.getLast?_concat, List.dropLast_concat]
    have moved : (front ++ [back] ++ rest).Perm (back :: front ++ rest) := by simp
    rw [List.length_append, List.length_singleton] at frugal
    refine ⟨turning_push_front held inside (owns_perm owns moved) frame ?_ frugal,
      by simpa using positive⟩
    rw [← holds]
    exact (window_extend_back front [back] inside).symm
  · rw [if_neg spare]
    have full := spare_back_none (Nat.lt_of_lt_of_le filled turning.within) limit filled spare
    rcases s with ⟨mem, buffer, beginPos, endPos⟩
    obtain ⟨held, within, owns, frame, holds, frugal⟩ := turning
    dsimp only at start full frugal
    subst start
    have low : mem.live ≤ before.mem.live := frugal_live frugal full
    apply ends_bind (ends_mono (new_block_owns owns) (out_of_memory_mono low)
      (fun _ post => post))
    rintro ⟨block, next⟩ ⟨owned, same, grown⟩
    dsimp only at same
    refine ⟨turning_push_front held within owned ?_ ?_ (frugal_new frugal grown),
      by simpa using positive⟩
    · rw [same]
      exact frame
    · rw [← holds]
      simp only [content, same]

theorem self_prepare_front_spec (turning : Turning born rest before s bytes)
    (first : Cached s.cb.buffer s.cb.beginPos firstPtr)
    (last : Cached s.cb.buffer s.cb.endPos lastPtr) :
    Ends (outOfMemory before.mem.live) (selfPrepareFront firstPtr lastPtr s) (fun ready =>
      Turning born rest before ready.1 bytes ∧ 0 < ready.1.cb.beginPos ∧
      Cached ready.1.cb.buffer ready.1.cb.beginPos ready.2.1 ∧
      Cached ready.1.cb.buffer ready.1.cb.endPos ready.2.2) := by
  unfold selfPrepareFront
  by_cases start : s.cb.beginPos = 0
  · rw [if_pos start]
    apply ends_bind (self_room_front_spec turning start)
    rintro room ⟨ready, ahead⟩
    have small := position_small ready
    have held := ready.held
    have within := ready.within
    obtain ⟨src, loaded, srcCached⟩ :=
      load_before room.cb.buffer ahead (by omega) (by omega)
    obtain ⟨dst, fetched, dstCached⟩ :=
      load_before room.cb.buffer (by omega) within (by omega)
    apply ends_bind_ok loaded
    apply ends_bind_ok fetched
    exact ⟨ready, ahead, srcCached, dstCached⟩
  · rw [if_neg start]
    exact ⟨turning, Nat.pos_of_ne_zero start, first, last⟩

theorem self_bytes_to_front_spec (n : Nat) {turned : List Byte}
    (turning : Turning born rest before s (turned.rotate n))
    (first : Cached s.cb.buffer s.cb.beginPos firstPtr)
    (last : Cached s.cb.buffer s.cb.endPos lastPtr) :
    Ends (outOfMemory before.mem.live) (selfBytesToFront n firstPtr lastPtr s)
      (fun after => Turning born rest before after turned) := by
  induction n generalizing s firstPtr lastPtr with
  | zero => simpa [selfBytesToFront] using turning
  | succ n ih =>
      rw [← List.rotate_rotate] at turning
      apply ends_bind (self_prepare_front_spec turning first last)
      rintro ⟨room, firstPtr, lastPtr⟩ ⟨ready, ahead, firstReady, lastReady⟩
      have small := position_small ready
      have held := ready.held
      have within := ready.within
      dsimp only at small held within ahead firstReady lastReady ⊢
      obtain ⟨dst, loaded, dstListed⟩ :=
        reload_before_listed ahead (by omega) (by omega) firstReady
      obtain ⟨src, fetched, srcListed⟩ :=
        reload_before_listed (by omega) within (by omega) lastReady
      apply ends_bind_ok loaded
      apply ends_bind_ok fetched
      rw [wsub_exact ahead (by omega), wsub_exact (by omega) (by omega)]
      have copied := turn_right ready ahead dstListed srcListed
      exact ih copied (cached_listed dstListed) (cached_listed srcListed)

end ByteLoops

section BlockLoops
variable {rest : List BlockId} {before : Buf} {bytes : List Byte} {mem : Mem} {cb : ControlBlock}
  {front middle spare : List BlockId}

theorem flat_rotate (cells : BlockId → Nat → Byte) (first : BlockId) (middle : List BlockId) :
    (flat defaultSize cells (first :: middle)).rotate defaultSize =
      flat defaultSize cells (middle ++ [first]) := by
  have turned := List.rotate_append_length_eq (Segments.segment defaultSize cells first)
    (flat defaultSize cells middle)
  rw [segment_length] at turned
  rw [flat_cons, turned, flat_append, flat_cons, flat_nil, List.append_nil]

theorem turning_relisted {after : ControlBlock} {unused turned behind : List BlockId}
    (turning : Turning born rest before ⟨mem, cb⟩ bytes) (aligned : Aligned cb front middle spare)
    (relisted : Aligned after unused turned behind) (some_ : turned ≠ [])
    (size : turned.length = middle.length) (same : after.buffer.Perm cb.buffer) :
    Turning born rest before ⟨mem, after⟩ (flat defaultSize mem.cells turned) := by
  have positive := List.length_pos_iff.mpr some_
  refine ⟨?_, ?_, owns_perm turning.owns (same.symm.append_right rest), turning.frame,
    content_aligned relisted, ?_⟩
  · rw [relisted.start, relisted.stop]
    exact Nat.mul_lt_mul_of_pos_right (by omega) block_size_pos
  · rw [relisted.stop, aligned_length relisted]
    exact Nat.mul_le_mul_right _ (by omega)
  · have frugal := turning.frugal
    unfold Frugal at *
    dsimp only at frugal ⊢
    rw [aligned.start, aligned.stop, Nat.add_mul] at frugal
    rw [relisted.start, relisted.stop, Nat.add_mul, same.length_eq, size]
    omega

theorem middle_nonempty {n : Nat} (big : n > defaultSize)
    (short : n ≤ middle.length * defaultSize) : middle ≠ [] := by
  rintro rfl
  rw [List.length_nil, Nat.zero_mul] at short
  omega

theorem self_blocks_to_back_spec {n : Nat} (turning : Turning born rest before ⟨mem, cb⟩ bytes)
    (aligned : Aligned cb front middle spare) (short : n ≤ middle.length * defaultSize) :
    ∃ left after, selfBlocksToBack n cb = .ok (left, after) ∧ left ≤ n ∧
      Turning born rest before ⟨mem, after⟩ (bytes.rotate (n - left)) := by
  induction n using Nat.strong_induction_on generalizing cb front middle spare bytes with
  | _ n ih =>
    rw [selfBlocksToBack]
    by_cases big : n > defaultSize
    · rw [if_pos big]
      have positive := block_size_pos
      obtain ⟨first, others, rfl⟩ := List.exists_cons_of_ne_nil (middle_nonempty big short)
      have shorter : n - defaultSize ≤ (others ++ [first]).length * defaultSize := by
        rw [List.length_append, List.length_singleton]
        exact Nat.le_trans (Nat.sub_le n defaultSize) short
      obtain ⟨next, unused, behind, moved, relisted, same⟩ := self_block_to_back_spec aligned
      have turned := turning_relisted turning aligned relisted (by simp) (by simp) same
      rw [← flat_rotate, ← content_aligned aligned, turning.holds] at turned
      obtain ⟨left, after, done, fewer, finished⟩ := ih (n - defaultSize) (by omega) turned
        relisted shorter
      refine ⟨left, after, by rw [moved, ok_bind, done], by omega, ?_⟩
      rw [List.rotate_rotate] at finished
      have total : defaultSize + (n - defaultSize - left) = n - left := by omega
      rwa [total] at finished
    · rw [if_neg big]
      refine ⟨n, cb, rfl, Nat.le_refl n, ?_⟩
      rwa [Nat.sub_self, List.rotate_zero]

theorem self_blocks_to_front_spec {n : Nat} {turned : List Byte}
    (turning : Turning born rest before ⟨mem, cb⟩ (turned.rotate n))
    (aligned : Aligned cb front middle spare) (short : n ≤ middle.length * defaultSize) :
    ∃ left after, selfBlocksToFront n cb = .ok (left, after) ∧
      Turning born rest before ⟨mem, after⟩ (turned.rotate left) := by
  induction n using Nat.strong_induction_on generalizing cb front middle spare with
  | _ n ih =>
    rw [selfBlocksToFront]
    by_cases big : n > defaultSize
    · rw [if_pos big]
      have positive := block_size_pos
      rcases List.eq_nil_or_concat middle with vacant | ⟨others, last, rfl⟩
      · exact absurd vacant (middle_nonempty big short)
      rw [List.concat_eq_append] at *
      have shorter : n - defaultSize ≤ (last :: others).length * defaultSize := by
        rw [List.length_append, List.length_singleton] at short
        exact Nat.le_trans (Nat.sub_le n defaultSize) short
      obtain ⟨next, unused, behind, moved, relisted, same⟩ :=
        self_block_to_front_spec aligned (owns_buffer_length turning.owns)
      have turnedBack := turning_relisted turning aligned relisted (by simp) (by simp) same
      have undone : (flat defaultSize mem.cells (last :: others)).rotate defaultSize =
          (turned.rotate (n - defaultSize)).rotate defaultSize := by
        rw [flat_rotate, ← content_aligned aligned, turning.holds, List.rotate_rotate,
          Nat.sub_add_cancel (Nat.le_of_lt big)]
      rw [List.rotate_injective defaultSize undone] at turnedBack
      obtain ⟨left, after, done, finished⟩ := ih (n - defaultSize) (by omega) turnedBack
        relisted shorter
      exact ⟨left, after, by rw [moved, ok_bind, done], finished⟩
    · rw [if_neg big]
      exact ⟨n, cb, rfl, turning⟩

end BlockLoops

section AlignLoops
variable {s : Buf} {firstPtr lastPtr : BlockId}

theorem self_align_front_bytes (count : Nat)
    (inside : ∀ step, step < count → (s.cb.beginPos + step) % defaultSize ≠ 0 ∧
      (s.cb.endPos + step) % defaultSize ≠ 0) :
    selfBytesToBack count firstPtr lastPtr s = .ok (selfAlignFront firstPtr lastPtr count s) := by
  induction count generalizing s with
  | zero => rfl
  | succ count ih =>
      obtain ⟨first, last⟩ := inside 0 (Nat.succ_pos count)
      rw [Nat.add_zero] at first last
      have room : s.cb.endPos ≠ s.cb.buffer.length * defaultSize := by
        intro full
        rw [full, Nat.mul_mod_left] at last
        exact last rfl
      rw [selfBytesToBack, selfRoomBack, if_neg room, ok_bind, reload, if_neg last, ok_bind, reload,
        if_neg first, ok_bind]
      apply ih
      intro step later
      have shifted := inside (step + 1) (Nat.succ_lt_succ later)
      simpa only [Nat.add_assoc, Nat.add_comm 1] using shifted

theorem self_align_front_positions (count : Nat) :
    (selfAlignFront firstPtr lastPtr count s).cb =
      ⟨s.cb.buffer, s.cb.beginPos + count, s.cb.endPos + count⟩ := by
  induction count generalizing s with
  | zero => rfl
  | succ count ih =>
      rw [selfAlignFront, ih]
      simp only [Nat.add_assoc, Nat.add_comm 1]

theorem self_align_back_bytes (count : Nat) (small : s.cb.beginPos < wordSize)
    (endSmall : s.cb.endPos < wordSize)
    (inside : ∀ step, step < count → (s.cb.beginPos - step) % defaultSize ≠ 0 ∧
      (s.cb.endPos - step) % defaultSize ≠ 0) :
    selfBytesToFront count firstPtr lastPtr s = .ok (selfAlignBack firstPtr lastPtr count s) := by
  induction count generalizing s with
  | zero => rfl
  | succ count ih =>
      obtain ⟨first, last⟩ := inside 0 (Nat.succ_pos count)
      rw [Nat.sub_zero] at first last
      have ahead : 0 < s.cb.beginPos := by
        apply Nat.pos_of_ne_zero
        intro start
        exact first (by rw [start, Nat.zero_mod])
      have filled : 0 < s.cb.endPos := by
        apply Nat.pos_of_ne_zero
        intro stop
        exact last (by rw [stop, Nat.zero_mod])
      rw [selfBytesToFront, selfPrepareFront, if_neg (Nat.ne_of_gt ahead), ok_bind]
      dsimp only
      rw [reloadBefore, if_neg first, ok_bind, reloadBefore, if_neg last, ok_bind, selfAlignBack,
        wsub_exact ahead small, wsub_exact filled endSmall]
      apply ih (Nat.lt_of_le_of_lt (Nat.sub_le _ _) small)
        (Nat.lt_of_le_of_lt (Nat.sub_le _ _) endSmall)
      intro step later
      have shifted := inside (step + 1) (Nat.succ_lt_succ later)
      simpa only [Nat.sub_sub, Nat.add_comm 1] using shifted

theorem self_align_back_positions (count : Nat) (ahead : count ≤ s.cb.beginPos)
    (filled : count ≤ s.cb.endPos) (small : s.cb.beginPos < wordSize)
    (endSmall : s.cb.endPos < wordSize) :
    (selfAlignBack firstPtr lastPtr count s).cb =
      ⟨s.cb.buffer, s.cb.beginPos - count, s.cb.endPos - count⟩ := by
  induction count generalizing s with
  | zero => rfl
  | succ count ih =>
      rw [selfAlignBack, wsub_exact (by omega) small, wsub_exact (by omega) endSmall,
        ih (by dsimp only; omega) (by dsimp only; omega) (by dsimp only; omega)
          (by dsimp only; omega)]
      simp only [Nat.sub_sub, Nat.add_comm 1]

end AlignLoops

section WholeTransfer
variable {rest : List BlockId} {before s : Buf} {bytes : List Byte}

theorem turning_length (turning : Turning born rest before s bytes) :
    bytes.length = s.cb.endPos - s.cb.beginPos := by
  rw [← turning.holds]
  exact content_length turning.within

theorem aligned_content_length {mem : Mem} {cb : ControlBlock} {front middle spare : List BlockId}
    (turning : Turning born rest before ⟨mem, cb⟩ bytes) (aligned : Aligned cb front middle spare) :
    bytes.length = middle.length * defaultSize := by
  rw [← turning.holds, content_aligned aligned, flat_length]

theorem self_align_front_spec {firstPtr lastPtr : BlockId} (turning : Turning born rest before s bytes)
    (offsets : s.cb.endPos % defaultSize = s.cb.beginPos % defaultSize)
    (first : Cached s.cb.buffer s.cb.beginPos firstPtr)
    (last : Cached s.cb.buffer s.cb.endPos lastPtr) :
    Turning born rest before (selfAlignFront firstPtr lastPtr (frontGap s.cb.beginPos) s)
      (bytes.rotate (frontGap s.cb.beginPos)) ∧
    ∃ front middle spare,
      Aligned (selfAlignFront firstPtr lastPtr (frontGap s.cb.beginPos) s).cb front middle spare := by
  have gaps := front_gap_same offsets
  have passes : selfBytesToBack (frontGap s.cb.beginPos) firstPtr lastPtr s =
      .ok (selfAlignFront firstPtr lastPtr (frontGap s.cb.beginPos) s) := by
    apply self_align_front_bytes
    intro step below
    constructor
    · exact front_gap_inside below
    · exact front_gap_inside (gaps ▸ below)
  have copied := self_bytes_to_back_spec (frontGap s.cb.beginPos) turning first last
  rw [passes, ends_ok] at copied
  refine ⟨copied, exists_aligned (Nat.le_of_lt copied.held) copied.within ?_ ?_⟩
  · rw [self_align_front_positions]
    exact front_gap_reaches s.cb.beginPos
  · rw [self_align_front_positions, ← gaps]
    exact front_gap_reaches s.cb.endPos

theorem self_front_blocks_spec {n : Nat} (turning : Turning born rest before s bytes)
    (fewer : n < bytes.length) :
    Ends (outOfMemory before.mem.live) (selfFrontBlocks n s) (fun moved => moved.1 ≤ n ∧
      Turning born rest before moved.2 (bytes.rotate (n - moved.1))) := by
  have small := position_small turning
  have held := turning.held
  have within := turning.within
  unfold selfFrontBlocks
  rw [wsub_exact (Nat.le_of_lt held) (by omega)]
  by_cases whole : (s.cb.endPos - s.cb.beginPos) % defaultSize = 0 ∧ n > 2 * defaultSize
  · rw [if_pos whole]
    obtain ⟨firstPtr, listed, firstLoaded⟩ := block_of_position (Nat.lt_of_lt_of_le held within)
    obtain ⟨lastPtr, lastLoaded, cached⟩ := load_before s.cb.buffer
      (Nat.zero_lt_of_lt held) within (by omega)
    apply ends_bind_ok firstLoaded
    apply ends_bind_ok lastLoaded
    obtain ⟨copied, front, middle, spare, aligned⟩ := self_align_front_spec turning
      (same_offset (Nat.le_of_lt held) whole.1) (cached_listed listed) cached
    have gap := front_gap_small s.cb.beginPos
    have length := turning_length turning
    have fits := aligned_content_length copied aligned
    rw [List.length_rotate] at fits
    have short : n - frontGap s.cb.beginPos ≤ middle.length * defaultSize := by omega
    obtain ⟨left, after, done, fewerLeft, finished⟩ :=
      self_blocks_to_back_spec copied aligned short
    have total : frontGap s.cb.beginPos + (n - frontGap s.cb.beginPos - left) = n - left := by
      omega
    rw [List.rotate_rotate, total] at finished
    rw [Nat.mod_mod]
    change Ends (outOfMemory before.mem.live) (selfBlocksToBack (wsub n (frontGap s.cb.beginPos)) _ >>= _) _
    rw [wsub_exact (show frontGap s.cb.beginPos ≤ n by omega) (by omega)]
    apply ends_bind_ok done
    exact ⟨show left ≤ n by omega, finished⟩
  · rw [if_neg whole]
    refine ⟨Nat.le_refl n, ?_⟩
    rwa [Nat.sub_self, List.rotate_zero]

theorem self_align_back_spec {firstPtr lastPtr : BlockId} {turned : List Byte}
    (turning : Turning born rest before s (turned.rotate (s.cb.endPos % defaultSize)))
    (offsets : s.cb.endPos % defaultSize = s.cb.beginPos % defaultSize)
    (first : Cached s.cb.buffer s.cb.beginPos firstPtr)
    (last : Cached s.cb.buffer s.cb.endPos lastPtr) :
    Turning born rest before (selfAlignBack firstPtr lastPtr (s.cb.endPos % defaultSize) s) turned ∧
    ∃ front middle spare,
      Aligned (selfAlignBack firstPtr lastPtr (s.cb.endPos % defaultSize) s).cb front middle
        spare := by
  have small := position_small turning
  have held := turning.held
  have passes : selfBytesToFront (s.cb.endPos % defaultSize) firstPtr lastPtr s =
      .ok (selfAlignBack firstPtr lastPtr (s.cb.endPos % defaultSize) s) := by
    apply self_align_back_bytes _ (by omega) (by omega)
    intro step below
    constructor
    · exact back_gap_inside (offsets ▸ below)
    · exact back_gap_inside below
  have copied := self_bytes_to_front_spec (s.cb.endPos % defaultSize) turning first last
  rw [passes, ends_ok] at copied
  have ahead : s.cb.endPos % defaultSize ≤ s.cb.beginPos := by
    rw [offsets]
    exact Nat.mod_le _ _
  have positions : (selfAlignBack firstPtr lastPtr (s.cb.endPos % defaultSize) s).cb = _ :=
    self_align_back_positions _ ahead (Nat.mod_le _ _) (by omega) (by omega)
  refine ⟨copied, exists_aligned (Nat.le_of_lt copied.held) copied.within ?_ ?_⟩
  · rw [positions, offsets]
    exact back_gap_reaches s.cb.beginPos
  · rw [positions]
    exact back_gap_reaches s.cb.endPos

theorem self_back_blocks_spec {n : Nat} {turned : List Byte}
    (turning : Turning born rest before s (turned.rotate n)) (fewer : n < turned.length) :
    Ends (outOfMemory before.mem.live) (selfBackBlocks n s) (fun moved =>
      Turning born rest before moved.2 (turned.rotate moved.1)) := by
  have small := position_small turning
  have held := turning.held
  have within := turning.within
  unfold selfBackBlocks
  rw [wsub_exact (Nat.le_of_lt held) (by omega), wsub_exact (show 1 ≤ s.cb.endPos by omega) (by omega)]
  by_cases whole : (s.cb.endPos - s.cb.beginPos) % defaultSize = 0 ∧ n > 2 * defaultSize
  · rw [if_pos whole]
    have offsets := same_offset (Nat.le_of_lt held) whole.1
    have gap := Nat.mod_lt s.cb.endPos block_size_pos
    have inside : s.cb.endPos - 1 < s.cb.buffer.length * defaultSize := by omega
    obtain ⟨firstPtr, listed, firstLoaded⟩ := block_of_position (Nat.lt_of_lt_of_le held within)
    obtain ⟨lastPtr, lastListed, lastLoaded⟩ := block_of_position inside
    apply ends_bind_ok firstLoaded
    apply ends_bind_ok lastLoaded
    dsimp only
    rw [back_gap (Nat.zero_lt_of_lt held)]
    have split : turned.rotate n =
        (turned.rotate (n - s.cb.endPos % defaultSize)).rotate (s.cb.endPos % defaultSize) := by
      rw [List.rotate_rotate, Nat.sub_add_cancel (by omega)]
    have length := turning_length turning
    rw [split] at turning
    obtain ⟨copied, front, middle, spare, aligned⟩ := self_align_back_spec turning offsets
      (cached_listed listed) (cached_before (Nat.zero_lt_of_lt held) lastListed)
    have fits := aligned_content_length copied aligned
    rw [List.length_rotate] at fits length
    obtain ⟨left, after, done, finished⟩ := self_blocks_to_front_spec copied aligned (by omega)
    rw [wsub_exact (show s.cb.endPos % defaultSize ≤ n by omega) (by omega)]
    apply ends_bind_ok done
    exact finished
  · rw [if_neg whole]
    exact turning

/-- The left rotation, which the code skips when `n` covers the content. -/
def turnedLeft (n : Nat) (bytes : List Byte) : List Byte :=
  if n < bytes.length then bytes.drop n ++ bytes.take n else bytes

def turnedRight (n : Nat) (bytes : List Byte) : List Byte :=
  if n < bytes.length then
    bytes.drop (bytes.length - n) ++ bytes.take (bytes.length - n) else bytes

theorem turned_left_idle {n : Nat} {bytes : List Byte} (idle : n = 0 ∨ n ≥ bytes.length) :
    turnedLeft n bytes = bytes := by
  unfold turnedLeft
  split
  · have none_ : n = 0 := by omega
    rw [none_, List.drop_zero, List.take_zero, List.append_nil]
  · rfl

theorem turned_left_rotate {n : Nat} {bytes : List Byte} (fewer : n < bytes.length) :
    turnedLeft n bytes = bytes.rotate n := by
  rw [turnedLeft, if_pos fewer, List.rotate_eq_drop_append_take (Nat.le_of_lt fewer)]

theorem turned_right_idle {n : Nat} {bytes : List Byte} (idle : n = 0 ∨ n ≥ bytes.length) :
    turnedRight n bytes = bytes := by
  unfold turnedRight
  split
  · have none_ : n = 0 := by omega
    rw [none_, Nat.sub_zero, List.drop_length, List.take_length, List.nil_append]
  · rfl

theorem turned_right_rotate {n : Nat} {bytes : List Byte} (fewer : n < bytes.length) :
    (turnedRight n bytes).rotate n = bytes := by
  have back := List.rotate_eq_drop_append_take (Nat.sub_le bytes.length n)
  rw [turnedRight, if_pos fewer, ← back, List.rotate_rotate,
    Nat.sub_add_cancel (Nat.le_of_lt fewer), List.rotate_length]

theorem turned_right_undone (n : Nat) (bytes : List Byte) :
    turnedLeft n (turnedRight n bytes) = bytes := by
  by_cases fewer : n < bytes.length
  · have same : (turnedRight n bytes).length = bytes.length := by
      rw [turnedRight, if_pos fewer, List.length_append, List.length_drop, List.length_take]
      omega
    rw [turned_left_rotate (by rw [same]; exact fewer), turned_right_rotate fewer]
  · have idle : n = 0 ∨ n ≥ bytes.length := Or.inr (Nat.le_of_not_lt fewer)
    rw [turned_right_idle idle, turned_left_idle idle]

theorem turning_start {s : Buf} (filled : Filled s.cb) (owns : Owns born s.mem (s.cb.buffer ++ rest)) :
    Turning born rest s s (content s) :=
  ⟨filled.nonempty, filled.within, owns, fun _ _ => rfl, rfl, frugal_start (Nat.le_refl _) filled.within⟩

theorem turning_closes {bytes : List Byte} (turning : Turning born rest before s bytes) :
    Ends (outOfMemory before.mem.live) (check s.cb >>= fun checked => shrinkSize ⟨s.mem, checked⟩)
      (fun after => Serves born rest before after bytes) := by
  apply ends_weaken (ends_total (close_serves turning.within turning.owns))
  intro after served
  refine ⟨served.rep, served.owns, ?_, served.holds.trans turning.holds⟩
  intro block foreign
  rw [served.frame block foreign, turning.frame block foreign]

theorem idle_or_filled {s : Buf} (n : Nat) (rep : Rep s.cb)
    (bounded : s.cb.buffer.length ≤ maxBlocks) :
    ((s.cb.beginPos = npos ∨ n = 0 ∨ n ≥ wsub s.cb.endPos s.cb.beginPos) ∧
      (n = 0 ∨ n ≥ (content s).length)) ∨
    (¬(s.cb.beginPos = npos ∨ n = 0 ∨ n ≥ wsub s.cb.endPos s.cb.beginPos) ∧
      Filled s.cb ∧ n < (content s).length) := by
  have limit := bytes_bounded bounded
  rw [content_length (rep_within rep)]
  cases rep with
  | inl vacant =>
      left
      constructor
      · exact Or.inl vacant.1
      · rw [vacant.2.1]
        exact Or.inr (by omega)
  | inr filled =>
      have start := filled_not_npos filled bounded
      have held := filled.nonempty
      have within := filled.within
      rw [filled_difference filled bounded]
      by_cases idle : n = 0 ∨ n ≥ s.cb.endPos - s.cb.beginPos
      · exact Or.inl ⟨Or.inr idle, idle⟩
      · exact Or.inr ⟨by omega, filled, by omega⟩

theorem self_pop_front_to_back_serves {s : Buf} (n : Nat) (rep : Rep s.cb)
    (owns : Owns born s.mem (s.cb.buffer ++ rest)) :
    Ends (outOfMemory s.mem.live) (selfPopFrontToBackN n s)
      (fun after => Serves born rest s after (turnedLeft n (content s))) := by
  have bounded := owns_buffer_length owns
  apply ends_bind_ok (check_normal (rep_within rep) bounded)
  rw [rep_normal rep]
  rcases idle_or_filled n rep bounded with ⟨skipped, idle⟩ | ⟨runs, filled, fewer⟩
  · rw [if_pos skipped, turned_left_idle idle]
    exact ⟨rep, owns, fun _ _ => rfl, rfl⟩
  · rw [if_neg runs, turned_left_rotate fewer]
    apply ends_bind (self_front_blocks_spec (turning_start filled owns) fewer)
    rintro ⟨left, moved⟩ ⟨fewerLeft, turned⟩
    have small := position_small turned
    obtain ⟨firstPtr, listed, firstLoaded⟩ :=
      block_of_position (Nat.lt_of_lt_of_le turned.held turned.within)
    obtain ⟨lastPtr, lastLoaded, cached⟩ := load_before moved.cb.buffer
      (Nat.zero_lt_of_lt turned.held) turned.within (by omega)
    apply ends_bind_ok firstLoaded
    apply ends_bind_ok lastLoaded
    apply ends_bind (self_bytes_to_back_spec left turned (cached_listed listed) cached)
    intro copied finished
    rw [List.rotate_rotate, Nat.sub_add_cancel fewerLeft] at finished
    exact turning_closes finished

theorem self_pop_back_to_front_serves {s : Buf} (n : Nat) (rep : Rep s.cb)
    (owns : Owns born s.mem (s.cb.buffer ++ rest)) :
    Ends (outOfMemory s.mem.live) (selfPopBackToFrontN n s)
      (fun after => Serves born rest s after (turnedRight n (content s))) := by
  have bounded := owns_buffer_length owns
  apply ends_bind_ok (check_normal (rep_within rep) bounded)
  rw [rep_normal rep]
  rcases idle_or_filled n rep bounded with ⟨skipped, idle⟩ | ⟨runs, filled, fewer⟩
  · rw [if_pos skipped, turned_right_idle idle]
    exact ⟨rep, owns, fun _ _ => rfl, rfl⟩
  · rw [if_neg runs]
    have undone := turned_right_rotate fewer
    have start := turning_start filled owns
    have length : (turnedRight n (content s)).length = (content s).length := by
      rw [← List.length_rotate (turnedRight n (content s)) n, undone]
    rw [← undone] at start
    apply ends_bind (self_back_blocks_spec start (by omega))
    rintro ⟨left, moved⟩ turned
    have small := position_small turned
    obtain ⟨firstPtr, listed, firstLoaded⟩ :=
      block_of_position (Nat.lt_of_lt_of_le turned.held turned.within)
    obtain ⟨lastPtr, lastLoaded, cached⟩ := load_before moved.cb.buffer
      (Nat.zero_lt_of_lt turned.held) turned.within (by omega)
    apply ends_bind_ok firstLoaded
    apply ends_bind_ok lastLoaded
    apply ends_bind (self_bytes_to_front_spec left turned (cached_listed listed) cached)
    intro copied finished
    exact turning_closes finished

end WholeTransfer

end Npoller.SelfTransfer
