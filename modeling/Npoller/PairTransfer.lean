import Npoller.TransferRules
import Npoller.BlockMoves

/-!
Moving bytes from one buffer to another over the same memory. `Span` is what
holds of each of the two in the middle of a transfer, and `Moving` says which
bytes each still has or already has. The specifications name the moved bytes,
so a loop's result is the composition of its passes' results.
-/

namespace Npoller.PairTransfer

open Outcome SizeT MemContainer IoBuffer IoBufferSpec IoBufferTransfer TransferRules BlockMoves
  Segments

variable {born : Nat}

structure Span (mem : Mem) (cb : ControlBlock) (bytes : List Byte) : Prop where
  order : cb.beginPos ≤ cb.endPos
  within : cb.endPos ≤ cb.buffer.length * defaultSize
  holds : content ⟨mem, cb⟩ = bytes

structure Moving (born : Nat) (rest : List BlockId) (before : Mem) (p : Pair)
    (thisBytes otherBytes : List Byte) : Prop where
  this : Span p.mem p.this thisBytes
  other : Span p.mem p.other otherBytes
  inside : p.other.beginPos < p.other.buffer.length * defaultSize
  owns : Owns born p.mem (p.this.buffer ++ (p.other.buffer ++ rest))
  frame : ∀ block ∈ rest, p.mem.cells block = before.cells block

def FrugalBack (base : Nat) (p : Pair) : Prop :=
  Frugal base p.mem p.other.buffer.length p.other.endPos p.this.beginPos

def FrugalFront (base : Nat) (p : Pair) : Prop :=
  Frugal base p.mem p.this.buffer.length p.this.endPos p.other.beginPos

section Spans
variable {mem : Mem} {buffer : List BlockId} {b e : Nat} {bytes : List Byte} {block : BlockId}

theorem span_length {cb : ControlBlock} (span : Span mem cb bytes) :
    cb.endPos = cb.beginPos + bytes.length := by
  have length : (content ⟨mem, cb⟩).length = cb.endPos - cb.beginPos := content_length span.within
  rw [← span.holds, length]
  exact (Nat.add_sub_of_le span.order).symm

theorem span_nonempty {cb : ControlBlock} (span : Span mem cb bytes) (some_ : bytes ≠ []) :
    cb.beginPos < cb.endPos := by
  have length := span_length span
  have positive := List.length_pos_iff.mpr some_
  omega

theorem span_same {other : Mem} {cb : ControlBlock} (span : Span mem cb bytes)
    (same : other.cells = mem.cells) : Span other cb bytes := by
  refine ⟨span.order, span.within, ?_⟩
  rw [← span.holds, content, content, same]

theorem span_push_back (span : Span mem ⟨buffer, b, e⟩ bytes) :
    Span mem ⟨buffer ++ [block], b, e⟩ bytes := by
  refine ⟨span.order, ?_, ?_⟩
  · simp only [List.length_append, List.length_singleton, Nat.succ_mul]
    exact Nat.le_trans span.within (Nat.le_add_right _ _)
  · rw [← span.holds]
    exact window_extend_back buffer [block] span.within

theorem span_pop_back (span : Span mem ⟨buffer ++ [block], b, e⟩ bytes)
    (inside : e ≤ buffer.length * defaultSize) : Span mem ⟨buffer, b, e⟩ bytes := by
  refine ⟨span.order, inside, ?_⟩
  rw [← span.holds]
  exact (window_extend_back buffer [block] inside).symm

theorem span_push_front (span : Span mem ⟨buffer, b, e⟩ bytes) :
    Span mem ⟨block :: buffer, b + defaultSize, e + defaultSize⟩ bytes := by
  refine ⟨Nat.add_le_add_right span.order _, ?_, ?_⟩
  · simp only [List.length_cons, Nat.succ_mul]
    exact Nat.add_le_add_right span.within _
  · rw [← span.holds]
    exact window_extend_front block buffer b e

theorem span_pop_front (span : Span mem ⟨block :: buffer, b, e⟩ bytes) (unused : defaultSize ≤ b) :
    Span mem ⟨buffer, b - defaultSize, e - defaultSize⟩ bytes := by
  refine ⟨Nat.sub_le_sub_right span.order _, ?_, ?_⟩
  · have within := span.within
    simp only [List.length_cons, Nat.succ_mul] at within
    dsimp only
    omega
  · rw [← span.holds]
    exact (window_drop_front unused span.order).symm

theorem span_head {cb : ControlBlock} {byte : Byte} (span : Span mem cb (byte :: bytes))
    (listed : cb.buffer[cb.beginPos / defaultSize]? = some block) :
    mem.cells block (cb.beginPos % defaultSize) = byte ∧
      Span mem { cb with beginPos := cb.beginPos + 1 } bytes := by
  have held := span_nonempty span (List.cons_ne_nil byte bytes)
  have split : content ⟨mem, cb⟩ = _ := window_head block_size_pos held span.within listed
  rw [span.holds, List.cons.injEq] at split
  exact ⟨split.1.symm, held, span.within, split.2.symm⟩

theorem span_last {cb : ControlBlock} {byte : Byte} (span : Span mem cb (bytes ++ [byte]))
    (listed : cb.buffer[(cb.endPos - 1) / defaultSize]? = some block) :
    mem.cells block ((cb.endPos - 1) % defaultSize) = byte ∧
      Span mem { cb with endPos := cb.endPos - 1 } bytes := by
  have held := span_nonempty span (by simp)
  have within := span.within
  have stop : cb.endPos - 1 + 1 = cb.endPos := by omega
  have split : window defaultSize mem.cells cb.buffer cb.beginPos (cb.endPos - 1 + 1) = _ :=
    window_last block_size_pos (by omega) (by omega) listed
  rw [stop] at split
  have whole : bytes ++ [byte] = _ := span.holds.symm.trans split
  obtain ⟨front, last⟩ := List.append_inj' whole rfl
  rw [List.singleton_inj] at last
  refine ⟨last.symm, ?_, ?_, front.symm⟩
  · change cb.beginPos ≤ cb.endPos - 1
    omega
  · change cb.endPos - 1 ≤ cb.buffer.length * defaultSize
    omega

theorem span_write_absent {cb : ControlBlock} (span : Span mem cb bytes)
    (absent : block ∉ cb.buffer) (offset : Nat) (value : Byte) :
    Span (mem.write block offset value) cb bytes := by
  refine ⟨span.order, span.within, ?_⟩
  rw [← span.holds]
  exact window_store_absent absent offset value _ _

theorem span_append {cb : ControlBlock} (span : Span mem cb bytes) (unique : cb.buffer.Nodup)
    (room : cb.endPos < cb.buffer.length * defaultSize)
    (listed : cb.buffer[cb.endPos / defaultSize]? = some block) (value : Byte) :
    Span (mem.write block (cb.endPos % defaultSize) value)
      { cb with endPos := cb.endPos + 1 } (bytes ++ [value]) := by
  refine ⟨Nat.le_succ_of_le span.order, room, ?_⟩
  rw [← span.holds]
  exact window_store_back block_size_pos unique listed span.order room value

theorem span_prepend {cb : ControlBlock} (span : Span mem cb bytes) (unique : cb.buffer.Nodup)
    (room : 0 < cb.beginPos)
    (listed : cb.buffer[(cb.beginPos - 1) / defaultSize]? = some block) (value : Byte) :
    Span (mem.write block ((cb.beginPos - 1) % defaultSize) value)
      { cb with beginPos := cb.beginPos - 1 } (value :: bytes) := by
  have order := span.order
  have start : cb.beginPos - 1 + 1 = cb.beginPos := by omega
  have behind : cb.beginPos - 1 + 1 ≤ cb.endPos := by omega
  have stored : content ⟨mem.write block ((cb.beginPos - 1) % defaultSize) value,
      { cb with beginPos := cb.beginPos - 1 }⟩ = _ :=
    window_store_front block_size_pos unique listed behind span.within value
  rw [start] at stored
  refine ⟨Nat.le_trans (Nat.sub_le _ _) order, span.within, ?_⟩
  rw [stored, ← span.holds]
  rfl

theorem span_open_front {cb : ControlBlock} {unused held : List BlockId} {extent : Nat}
    (opened : OpenFront cb unused held extent) (fits : extent ≤ held.length * defaultSize) :
    Span mem cb ((flat defaultSize mem.cells held).take extent) := by
  refine ⟨?_, ?_, content_open_front opened⟩
  · rw [opened.start, opened.stop]
    exact Nat.le_add_right _ _
  · rw [opened.stop, opened.listed, List.length_append, Nat.add_mul]
    exact Nat.add_le_add_left fits _

theorem span_open_back {cb : ControlBlock} {held spare : List BlockId}
    (opened : OpenBack cb held spare) (order : cb.beginPos ≤ cb.endPos) :
    Span mem cb ((flat defaultSize mem.cells held).drop cb.beginPos) := by
  refine ⟨order, ?_, content_open_back opened⟩
  rw [opened.stop, opened.listed, List.length_append, Nat.add_mul]
  exact Nat.le_add_right _ _

end Spans

section Steps
variable {rest : List BlockId} {before : Mem} {p : Pair} {left held : List Byte} {byte : Byte}
  {firstPtr lastPtr : BlockId}

theorem moving_other_owned (moving : Moving born rest before p left held) :
    Owns born p.mem (p.other.buffer ++ (p.this.buffer ++ rest)) := owns_swap moving.owns

theorem moving_small (moving : Moving born rest before p left held) :
    p.this.endPos + defaultSize < wordSize ∧ p.other.endPos + defaultSize < wordSize := by
  have limit := bytes_bounded (owns_buffer_length moving.owns)
  have otherLimit := bytes_bounded (owns_buffer_length (moving_other_owned moving))
  have within := moving.this.within
  have otherWithin := moving.other.within
  simp only [wordSize]
  omega

theorem moving_relisted {after : Pair} {leftAfter heldAfter : List Byte}
    (moving : Moving born rest before p left held) (sameMem : after.mem = p.mem)
    (same : (after.this.buffer ++ after.other.buffer).Perm (p.this.buffer ++ p.other.buffer))
    (this : Span p.mem after.this leftAfter) (other : Span p.mem after.other heldAfter)
    (inside : after.other.beginPos < after.other.buffer.length * defaultSize) :
    Moving born rest before after leftAfter heldAfter := by
  have moved := same.symm.append_right rest
  rw [List.append_assoc, List.append_assoc] at moved
  rw [← sameMem] at this other
  refine ⟨this, other, inside, ?_, ?_⟩
  · rw [sameMem]
    exact owns_perm moving.owns moved
  · rw [sameMem]
    exact moving.frame

theorem move_to_back (moving : Moving born rest before p (byte :: left) held)
    (room : p.other.endPos < p.other.buffer.length * defaultSize)
    (first : p.this.buffer[p.this.beginPos / defaultSize]? = some firstPtr)
    (last : p.other.buffer[p.other.endPos / defaultSize]? = some lastPtr) :
    Moving born rest before ⟨copyByte p.mem lastPtr p.other.endPos firstPtr p.this.beginPos,
      { p.this with beginPos := p.this.beginPos + 1 },
      { p.other with endPos := p.other.endPos + 1 }⟩ left (held ++ [byte]) := by
  have owned := moving_other_owned moving
  have member := List.mem_of_getElem? last
  have foreign := owns_apart owned member
  rw [List.mem_append, not_or] at foreign
  obtain ⟨value, shorter⟩ := span_head moving.this first
  have longer := span_append moving.other (owns_left_unique owned) room last
    (p.mem.cells firstPtr (p.this.beginPos % defaultSize))
  rw [value] at longer
  refine ⟨span_write_absent shorter foreign.1 _ _, ?_, moving.inside,
    (owns_write _ _ _).mpr moving.owns, ?_⟩
  · rw [copyByte, value]
    exact longer
  · intro block other
    have apart := write_frame owned member (p.other.endPos % defaultSize)
      (p.mem.cells firstPtr (p.this.beginPos % defaultSize)) block (List.mem_append_right _ other)
    exact apart.trans (moving.frame block other)

theorem move_to_front (moving : Moving born rest before p (left ++ [byte]) held)
    (room : 0 < p.other.beginPos)
    (first : p.other.buffer[(p.other.beginPos - 1) / defaultSize]? = some firstPtr)
    (last : p.this.buffer[(p.this.endPos - 1) / defaultSize]? = some lastPtr) :
    Moving born rest before ⟨copyByte p.mem firstPtr (p.other.beginPos - 1) lastPtr (p.this.endPos - 1),
      { p.this with endPos := p.this.endPos - 1 },
      { p.other with beginPos := p.other.beginPos - 1 }⟩ left (byte :: held) := by
  have owned := moving_other_owned moving
  have member := List.mem_of_getElem? first
  have foreign := owns_apart owned member
  rw [List.mem_append, not_or] at foreign
  obtain ⟨value, shorter⟩ := span_last moving.this last
  have longer := span_prepend moving.other (owns_left_unique owned) room first byte
  refine ⟨span_write_absent shorter foreign.1 _ _, ?_,
    Nat.lt_of_le_of_lt (Nat.sub_le _ _) moving.inside, (owns_write _ _ _).mpr moving.owns, ?_⟩
  · rw [copyByte, value]
    exact longer
  · intro block other
    have apart := write_frame owned member ((p.other.beginPos - 1) % defaultSize)
      (p.mem.cells lastPtr ((p.this.endPos - 1) % defaultSize)) block (List.mem_append_right _ other)
    exact apart.trans (moving.frame block other)

end Steps

section OpenAndClose
variable {rest : List BlockId} {before : Mem} {p : Pair} {bytes left held : List Byte}

theorem lend_block_spec (span : Span p.mem p.this bytes) (some_ : bytes ≠ [])
    (first : p.this.beginPos < defaultSize)
    (owns : Owns born p.mem (p.this.buffer ++ (p.other.buffer ++ rest))) :
    Ends (outOfMemory p.mem.live) (lendBlock p) (fun lent => Span lent.mem lent.this bytes ∧
      0 < lent.other.buffer.length ∧
      Owns born lent.mem (lent.this.buffer ++ (lent.other.buffer ++ rest)) ∧
      lent.mem.cells = p.mem.cells ∧ lent.mem.live ≤ p.mem.live + 1) := by
  have filled := span_nonempty span some_
  have few := owns_buffer_length owns
  unfold lendBlock
  by_cases vacant : p.other.buffer.isEmpty
  · rw [if_pos vacant]
    have none_ : p.other.buffer = [] := List.isEmpty_iff.mp vacant
    by_cases spare : SpareBack p.this
    · rw [if_pos spare]
      have positive := blocks_positive (Nat.lt_of_lt_of_le filled span.within)
      obtain ⟨front, back, listed, inside⟩ := spare_back_listed positive span.within few spare
      rcases p with ⟨mem, ⟨buffer, b, e⟩, other⟩
      dsimp only at listed inside span owns none_ ⊢
      subst listed
      rw [List.getLast?_concat, List.dropLast_concat, none_]
      rw [none_] at owns
      exact ⟨span_pop_back span inside, Nat.one_pos, by simpa using owns, rfl, Nat.le_succ _⟩
    · rw [if_neg spare, if_neg (fun whole => Nat.not_le_of_lt first ((whole_block_iff _).mp whole))]
      apply ends_bind (new_block_owns owns)
      rintro ⟨block, next⟩ ⟨owned, same, grown⟩
      rw [none_] at owned ⊢
      have moved : (block :: (p.this.buffer ++ ([] ++ rest))).Perm
          (p.this.buffer ++ ([] ++ [block] ++ rest)) := by
        simpa using List.perm_middle.symm
      exact ⟨span_same span same, Nat.one_pos, owns_perm owned moved, same, Nat.le_of_eq grown⟩
  · rw [if_neg vacant]
    have some_ : p.other.buffer ≠ [] := fun none_ => vacant (List.isEmpty_iff.mpr none_)
    exact ⟨span, List.length_pos_iff.mpr some_, owns, rfl, Nat.le_succ _⟩

theorem moving_opened {lent : Pair} {start : Nat} (small : start < defaultSize)
    (span : Span lent.mem lent.this bytes) (some_ : 0 < lent.other.buffer.length)
    (owns : Owns born lent.mem (lent.this.buffer ++ (lent.other.buffer ++ rest)))
    (same : lent.mem.cells = before.cells) :
    Moving born rest before { lent with other := ⟨lent.other.buffer, start, start⟩ } bytes [] := by
  have inside : start < lent.other.buffer.length * defaultSize :=
    Nat.lt_of_lt_of_le small (Nat.le_mul_of_pos_left _ some_)
  refine ⟨span, ⟨Nat.le_refl _, Nat.le_of_lt inside, window_empty _ _⟩, inside, owns, ?_⟩
  intro block _
  rw [same]

theorem moving_start (this : Filled p.this) (other : Filled p.other)
    (owns : Owns born p.mem (p.this.buffer ++ (p.other.buffer ++ rest))) :
    Moving born rest p.mem p (content ⟨p.mem, p.this⟩) (content ⟨p.mem, p.other⟩) :=
  ⟨⟨Nat.le_of_lt this.nonempty, this.within, rfl⟩,
    ⟨Nat.le_of_lt other.nonempty, other.within, rfl⟩,
    Nat.lt_of_lt_of_le other.nonempty other.within, owns, fun _ _ => rfl⟩

theorem filled_content {mem : Mem} {cb : ControlBlock} (filled : Filled cb) :
    content ⟨mem, cb⟩ ≠ [] := by
  have length : (content ⟨mem, cb⟩).length = cb.endPos - cb.beginPos := content_length filled.within
  have held := filled.nonempty
  intro none_
  rw [none_, List.length_nil] at length
  omega

structure PairServes (born : Nat) (rest : List BlockId) (before : Mem) (after : Pair)
    (thisBytes otherBytes : List Byte) : Prop where
  thisRep : Rep after.this
  otherRep : Rep after.other
  owns : Owns born after.mem (after.this.buffer ++ (after.other.buffer ++ rest))
  frame : ∀ block ∈ rest, after.mem.cells block = before.cells block
  thisHolds : content ⟨after.mem, after.this⟩ = thisBytes
  otherHolds : content ⟨after.mem, after.other⟩ = otherBytes

theorem close_pair_serves (moving : Moving born rest before p left held) :
    Ends (fun _ => False) (closePair p) (fun after => PairServes born rest before after left held) := by
  have within := moving.this.within
  have otherWithin := moving.other.within
  apply ends_bind_ok (check_normal within (owns_buffer_length moving.owns))
  apply ends_bind_ok (check_normal otherWithin (owns_buffer_length (moving_other_owned moving)))
  have shrunk : Ends (fun _ => False) (shrinkSize ⟨p.mem, normal p.this⟩) (fun after =>
      Serves born ((normal p.other).buffer ++ rest) ⟨p.mem, normal p.this⟩ after _) :=
    shrink_serves (normal_within within) (by simpa using moving.owns)
  apply ends_bind shrunk
  intro first served
  have shrunkOther : Ends (fun _ => False) (shrinkSize ⟨first.mem, normal p.other⟩) (fun after =>
      Serves born (first.cb.buffer ++ rest) ⟨first.mem, normal p.other⟩ after _) :=
    shrink_serves (normal_within otherWithin) (owns_swap served.owns)
  apply ends_bind shrunkOther
  intro second servedOther
  refine ⟨served.rep, servedOther.rep, owns_swap servedOther.owns, ?_, ?_, ?_⟩
  · intro block foreign
    have kept := servedOther.frame block (List.mem_append_right _ foreign)
    have keptBefore := served.frame block (List.mem_append_right _ foreign)
    exact kept.trans (keptBefore.trans (moving.frame block foreign))
  · -- the second shrink does not write to the first buffer's blocks
    have kept : content ⟨second.mem, first.cb⟩ = content first :=
      window_congr (fun block member => servedOther.frame block (List.mem_append_left _ member)) _ _
    exact kept.trans (served.holds.trans ((content_normal _ _).trans moving.this.holds))
  · have kept : content ⟨first.mem, normal p.other⟩ = content ⟨p.mem, normal p.other⟩ :=
      window_congr (fun block member => served.frame block (List.mem_append_left _ member)) _ _
    exact servedOther.holds.trans (kept.trans ((content_normal _ _).trans moving.other.holds))

end OpenAndClose

section FrontToBack
variable {rest : List BlockId} {before : Mem} {p : Pair} {left held : List Byte}
  {firstPtr : BlockId} {base : Nat}

/-- The pointer that may still be `nullptr`, which it is only at a block start. -/
def CachedNull (buffer : List BlockId) (pos : Nat) (block : Option BlockId) : Prop :=
  pos % defaultSize ≠ 0 → ∃ found, block = some found ∧ buffer[pos / defaultSize]? = some found

theorem reload_null_listed {buffer : List BlockId} {pos : Nat} {block : Option BlockId}
    (within : pos < buffer.length * defaultSize) (cached : CachedNull buffer pos block) :
    ∃ found, reloadNull buffer pos block = .ok found ∧
      buffer[pos / defaultSize]? = some found := by
  unfold reloadNull
  by_cases boundary : pos % defaultSize = 0
  · obtain ⟨found, listed, loaded⟩ := block_of_position within
    exact ⟨found, by rw [if_pos boundary, loaded], listed⟩
  · obtain ⟨found, rfl, listed⟩ := cached boundary
    exact ⟨found, by rw [if_neg boundary, deref], listed⟩

theorem more_room {buffer : List BlockId} {pos : Nat} (block : BlockId)
    (within : pos ≤ buffer.length * defaultSize) :
    pos < (buffer ++ [block]).length * defaultSize := by
  have positive := block_size_pos
  simp only [List.length_append, List.length_singleton, Nat.succ_mul]
  omega

theorem cached_null_boundary {buffer : List BlockId} {pos : Nat} {block : Option BlockId}
    (boundary : pos % defaultSize = 0) : CachedNull buffer pos block :=
  fun inside => absurd boundary inside

theorem other_room_back_spec {last : Option BlockId} (moving : Moving born rest before p left held)
    (frugal : FrugalBack base p) (first : Cached p.this.buffer p.this.beginPos firstPtr)
    (lastCached : CachedNull p.other.buffer p.other.endPos last) :
    Ends (outOfMemory base) (otherRoomBack p) (fun room => Moving born rest before room left held ∧
      FrugalBack base room ∧ room.other.endPos < room.other.buffer.length * defaultSize ∧
      Cached room.this.buffer room.this.beginPos firstPtr ∧
      CachedNull room.other.buffer room.other.endPos last) := by
  have small := moving_small moving
  have positive := block_size_pos
  rcases p with ⟨mem, ⟨buffer, b, e⟩, ⟨otherBuffer, otherB, otherE⟩⟩
  obtain ⟨this, other, inside, owns, frame⟩ := moving
  have order := this.order
  have otherOrder := other.order
  dsimp only at *
  unfold FrugalBack at *
  unfold otherRoomBack
  by_cases full : otherE = otherBuffer.length * defaultSize
  · rw [if_pos full]
    have boundary : otherE % defaultSize = 0 := by rw [full, Nat.mul_mod_left]
    -- A block in front of the first byte of `this` goes to the other buffer.
    by_cases unused : b ≥ defaultSize
    · rw [if_pos unused]
      cases buffer with
      | nil =>
          have within := this.within
          simp only [List.length_nil, Nat.zero_mul] at within
          omega
      | cons front buffer =>
          dsimp only
          rw [wsub_exact unused (by omega), wsub_exact (by omega) (by omega)]
          have moved : (front :: buffer ++ (otherBuffer ++ rest)).Perm
              (buffer ++ (otherBuffer ++ [front] ++ rest)) := by
            have lifted : (buffer ++ otherBuffer ++ front :: rest).Perm
                (front :: (buffer ++ otherBuffer ++ rest)) := List.perm_middle
            simpa using lifted.symm
          refine ⟨⟨span_pop_front this unused, span_push_back other,
            Nat.lt_trans inside (more_room front (Nat.le_refl _)), owns_perm owns moved, frame⟩, ?_,
            more_room front other.within, cached_pop first unused,
            cached_null_boundary boundary⟩
          rw [List.length_append, List.length_singleton]
          exact frugal_take frugal unused
    · rw [if_neg unused]
      -- The first block of the other buffer goes behind its last one.
      by_cases own : otherBuffer.length > 0 ∧ otherB ≥ defaultSize
      · rw [if_pos own]
        cases otherBuffer with
        | nil => exact absurd own.1 (Nat.lt_irrefl 0)
        | cons front otherBuffer =>
            dsimp only
            rw [wsub_exact own.2 (by omega), wsub_exact (by omega) (by omega)]
            have popped := span_pop_front other own.2
            have moved : (buffer ++ (front :: otherBuffer ++ rest)).Perm
                (buffer ++ (otherBuffer ++ [front] ++ rest)) := by
              apply List.Perm.append_left
              simpa using List.perm_middle.symm
            have boundaryAfter : (otherE - defaultSize) % defaultSize = 0 := by
              rw [← Nat.mod_eq_sub_mod (by omega), boundary]
            refine ⟨⟨this, span_push_back popped, ?_, owns_perm owns moved, frame⟩, ?_,
              more_room front popped.within, first, cached_null_boundary boundaryAfter⟩
            · exact more_room front (Nat.le_trans popped.order popped.within)
            · rw [(List.perm_append_singleton front otherBuffer).length_eq]
              exact frugal_lower frugal (Nat.sub_le _ _)
      · rw [if_neg own]
        have positiveOther : 0 < otherBuffer.length :=
          blocks_positive (Nat.lt_of_le_of_lt (Nat.zero_le _) inside)
        have low : mem.live ≤ base := frugal_live frugal (by dsimp only; omega)
        apply ends_bind (ends_mono (new_block_owns owns) (out_of_memory_mono low)
          (fun _ post => post))
        rintro ⟨block, next⟩ ⟨owned, same, grown⟩
        have moved : (block :: (buffer ++ (otherBuffer ++ rest))).Perm
            (buffer ++ (otherBuffer ++ [block] ++ rest)) := by
          have lifted : (buffer ++ otherBuffer ++ block :: rest).Perm
              (block :: (buffer ++ otherBuffer ++ rest)) := List.perm_middle
          simpa using lifted.symm
        refine ⟨⟨span_same this same, span_same (span_push_back other) same,
          Nat.lt_trans inside (more_room block (Nat.le_refl _)), owns_perm owned moved, ?_⟩, ?_,
          more_room block other.within, first, cached_null_boundary boundary⟩
        · intro key foreign
          exact (congrFun same key).trans (frame key foreign)
        · rw [List.length_append, List.length_singleton]
          exact frugal_new frugal grown
  · rw [if_neg full]
    exact ⟨⟨this, other, inside, owns, frame⟩, frugal, Nat.lt_of_le_of_ne other.within full, first,
      lastCached⟩

theorem cached_null_next {buffer : List BlockId} {pos : Nat} {block : BlockId}
    (listed : buffer[pos / defaultSize]? = some block) :
    CachedNull buffer (pos + 1) (some block) := by
  intro inside
  exact ⟨block, rfl, cached_next listed inside⟩

theorem other_bytes_to_back_spec (moved : List Byte) {last : Option BlockId}
    (moving : Moving born rest before p (moved ++ left) held) (frugal : FrugalBack base p)
    (first : Cached p.this.buffer p.this.beginPos firstPtr)
    (lastCached : CachedNull p.other.buffer p.other.endPos last) :
    Ends (outOfMemory base) (otherBytesToBack moved.length firstPtr last p) (fun after =>
      Moving born rest before after left (held ++ moved) ∧ FrugalBack base after) := by
  induction moved generalizing p held firstPtr last with
  | nil => simpa [otherBytesToBack, frugal] using moving
  | cons byte moved ih =>
      apply ends_bind (other_room_back_spec moving frugal first lastCached)
      rintro room ⟨ready, thrifty, free, firstReady, lastReady⟩
      obtain ⟨dst, loaded, dstListed⟩ := reload_null_listed free lastReady
      have filled := span_nonempty ready.this (List.cons_ne_nil byte (moved ++ left))
      obtain ⟨src, fetched, srcListed⟩ :=
        reload_listed (Nat.lt_of_lt_of_le filled ready.this.within) firstReady
      apply ends_bind_ok loaded
      apply ends_bind_ok fetched
      have copied := move_to_back ready free srcListed dstListed
      apply ends_weaken (ih copied (frugal_shift thrifty 1) (cached_next srcListed)
        (cached_null_next dstListed))
      intro after finished
      rwa [List.append_assoc] at finished

theorem other_align_front_bytes {lastPtr : BlockId} (count : Nat)
    (inside : ∀ step, step < count → (p.this.beginPos + step) % defaultSize ≠ 0 ∧
      (p.other.endPos + step) % defaultSize ≠ 0) :
    otherBytesToBack count firstPtr (some lastPtr) p =
      .ok (otherAlignFront firstPtr lastPtr count p) := by
  induction count generalizing p with
  | zero => rfl
  | succ count ih =>
      obtain ⟨first, last⟩ := inside 0 (Nat.succ_pos count)
      rw [Nat.add_zero] at first last
      have room : p.other.endPos ≠ p.other.buffer.length * defaultSize := by
        intro full
        rw [full, Nat.mul_mod_left] at last
        exact last rfl
      rw [otherBytesToBack, otherRoomBack, if_neg room, ok_bind, reloadNull, if_neg last, deref,
        ok_bind, reload, if_neg first, ok_bind]
      apply ih
      intro step later
      have shifted := inside (step + 1) (Nat.succ_lt_succ later)
      simpa only [Nat.add_assoc, Nat.add_comm 1] using shifted

theorem other_align_front_positions {lastPtr : BlockId} (count : Nat) :
    (otherAlignFront firstPtr lastPtr count p).this =
        { p.this with beginPos := p.this.beginPos + count } ∧
      (otherAlignFront firstPtr lastPtr count p).other =
        { p.other with endPos := p.other.endPos + count } := by
  induction count generalizing p with
  | zero => exact ⟨rfl, rfl⟩
  | succ count ih =>
      rw [otherAlignFront, ih.1, ih.2]
      simp only [Nat.add_assoc, Nat.add_comm 1, and_self]

theorem take_segment (cells : BlockId → Nat → Byte) (first : BlockId) (middle : List BlockId)
    {extent : Nat} (some_ : defaultSize ≤ extent) :
    (flat defaultSize cells (first :: middle)).take extent = Segments.segment defaultSize cells first ++
      (flat defaultSize cells middle).take (extent - defaultSize) := by
  have length : (Segments.segment defaultSize cells first).length = defaultSize := segment_length first
  rw [flat_cons, List.take_append, length, List.take_of_length_le (by omega)]

theorem frugal_block_back {after : Pair} {front middle filled behind unused room : List BlockId}
    {first : BlockId} {extent shrunk : Nat} (frugal : FrugalBack base p)
    (opened : OpenFront p.this front (first :: middle) extent)
    (receiver : OpenBack p.other filled behind) (shorter : OpenFront after.this unused middle shrunk)
    (longer : OpenBack after.other (filled ++ [first]) room) (sameMem : after.mem = p.mem)
    (same : (after.this.buffer ++ after.other.buffer).Perm (p.this.buffer ++ p.other.buffer)) :
    FrugalBack base after := by
  have count := same.length_eq
  simp only [opened.listed, receiver.listed, shorter.listed, longer.listed, List.length_append,
    List.length_cons, List.length_nil] at count
  have idle : front.length + behind.length = unused.length + room.length := by omega
  have places := congrArg (· * defaultSize) idle
  simp only [Nat.add_mul] at places
  unfold FrugalBack Frugal at *
  rw [receiver.listed, receiver.stop, opened.start] at frugal
  rw [longer.listed, longer.stop, shorter.start, sameMem]
  simp only [List.length_append, Nat.add_mul] at frugal ⊢
  omega

theorem other_block_moves_back {front middle filled behind : List BlockId} {first : BlockId}
    {extent : Nat} (moving : Moving born rest before p left held) (frugal : FrugalBack base p)
    (opened : OpenFront p.this front (first :: middle) extent)
    (receiver : OpenBack p.other filled behind) (some_ : defaultSize ≤ extent) :
    ∃ after unused room, otherBlockToBack p = .ok after ∧
      OpenFront after.this unused middle (extent - defaultSize) ∧
      OpenBack after.other (filled ++ [first]) room ∧
      Moving born rest before after (left.drop defaultSize) (held ++ left.take defaultSize) ∧
      FrugalBack base after := by
  have small := moving_small moving
  obtain ⟨after, unused, room, done, sameMem, shorter, longer, start, same⟩ :=
    other_block_to_back_spec opened receiver some_ (by omega)
  refine ⟨after, unused, room, done, shorter, longer, ?_,
    frugal_block_back frugal opened receiver shorter longer sameMem same⟩
  have extentFits := open_front_extent opened moving.this.within
  have order : p.other.beginPos ≤ filled.length * defaultSize := by
    rw [← receiver.stop]
    exact moving.other.order
  have thisSpan : Span p.mem after.this _ := span_open_front shorter (by
    simp only [List.length_cons, Nat.succ_mul] at extentFits
    omega)
  have otherSpan : Span p.mem after.other _ := span_open_back longer (by
    rw [longer.stop, start]
    exact Nat.le_of_lt (more_room first order))
  have length : (Segments.segment defaultSize p.mem.cells first).length = defaultSize := segment_length first
  have leftIs : left = _ := moving.this.holds.symm.trans (content_open_front opened)
  have heldIs : held = _ := moving.other.holds.symm.trans (content_open_back receiver)
  rw [take_segment _ _ _ some_] at leftIs
  have dropped : left.drop defaultSize =
      (flat defaultSize p.mem.cells middle).take (extent - defaultSize) := by
    rw [leftIs, List.drop_left' length]
  have taken : left.take defaultSize = Segments.segment defaultSize p.mem.cells first := by
    rw [leftIs, List.take_left' length]
  have grown : (flat defaultSize p.mem.cells (filled ++ [first])).drop after.other.beginPos =
      held ++ left.take defaultSize := by
    rw [start, flat_append, List.drop_append_of_le_length (by rw [flat_length]; exact order), heldIs,
      taken, flat_cons, flat_nil, List.append_nil]
  rw [← dropped] at thisSpan
  rw [grown] at otherSpan
  refine moving_relisted moving sameMem same thisSpan otherSpan ?_
  rw [start, longer.listed, List.length_append, Nat.add_mul]
  exact Nat.lt_of_lt_of_le (more_room first order) (Nat.le_add_right _ _)

theorem other_blocks_to_back_spec {n : Nat} {front middle filled behind : List BlockId}
    {extent : Nat} (moving : Moving born rest before p left held) (frugal : FrugalBack base p)
    (opened : OpenFront p.this front middle extent) (receiver : OpenBack p.other filled behind)
    (short : n ≤ extent) :
    ∃ remaining after, otherBlocksToBack n p = .ok (remaining, after) ∧ remaining ≤ n ∧
      (0 < n → 0 < remaining) ∧ Moving born rest before after (left.drop (n - remaining))
        (held ++ left.take (n - remaining)) ∧ FrugalBack base after := by
  induction n using Nat.strong_induction_on generalizing p left held front middle filled behind
    extent with
  | _ n ih =>
    rw [otherBlocksToBack]
    by_cases big : n > defaultSize
    · rw [if_pos big]
      have positive := block_size_pos
      have fits := open_front_extent opened moving.this.within
      obtain ⟨first, others, rfl⟩ := List.exists_cons_of_ne_nil (show middle ≠ [] by
        rintro rfl
        simp only [List.length_nil, Nat.zero_mul] at fits
        omega)
      obtain ⟨next, unused, room, done, shorter, longer, moved, thrifty⟩ :=
        other_block_moves_back moving frugal opened receiver (by omega)
      obtain ⟨remaining, after, rest_, fewer, some_, finished⟩ :=
        ih (n - defaultSize) (by omega) moved thrifty shorter longer (by omega)
      have total : n - remaining = defaultSize + (n - defaultSize - remaining) := by omega
      refine ⟨remaining, after, by rw [done, ok_bind, rest_], by omega, fun _ => some_ (by omega), ?_⟩
      rw [total, ← List.drop_drop, List.take_add, ← List.append_assoc]
      exact finished
    · rw [if_neg big]
      refine ⟨n, p, rfl, Nat.le_refl n, fun some_ => some_, ?_⟩
      rw [Nat.sub_self, List.drop_zero, List.take_zero, List.append_nil]
      exact ⟨moving, frugal⟩

theorem other_aligned_front_spec (moving : Moving born rest before p left held)
    (frugal : FrugalBack base p)
    (offsets : p.this.beginPos % defaultSize = p.other.endPos % defaultSize)
    (enough : frontGap p.this.beginPos ≤ left.length) :
    Ends (outOfMemory base) (otherAlignedFront (frontGap p.this.beginPos) p) (fun aligned =>
      Moving born rest before aligned (left.drop (frontGap p.this.beginPos))
        (held ++ left.take (frontGap p.this.beginPos)) ∧ FrugalBack base aligned ∧
      aligned.this.beginPos % defaultSize = 0 ∧ aligned.other.endPos % defaultSize = 0) := by
  unfold otherAlignedFront
  by_cases boundary : p.this.beginPos % defaultSize = 0
  · have none_ : frontGap p.this.beginPos = 0 := by rw [frontGap, if_pos boundary]
    rw [if_neg (fun apart => apart boundary), none_, List.drop_zero, List.take_zero, List.append_nil]
    exact ⟨moving, frugal, boundary, offsets ▸ boundary⟩
  · rw [if_pos boundary]
    have gap : frontGap p.this.beginPos = defaultSize - p.this.beginPos % defaultSize := by
      rw [frontGap, if_neg boundary]
    have offset := Nat.mod_lt p.this.beginPos block_size_pos
    have filled := span_nonempty moving.this (by
      rintro rfl
      simp only [List.length_nil] at enough
      omega)
    have room : p.other.endPos < p.other.buffer.length * defaultSize := by
      apply Nat.lt_of_le_of_ne moving.other.within
      intro full
      rw [offsets, full, Nat.mul_mod_left] at boundary
      exact boundary rfl
    obtain ⟨firstPtr, listed, firstLoaded⟩ :=
      block_of_position (Nat.lt_of_lt_of_le filled moving.this.within)
    obtain ⟨lastPtr, lastListed, lastLoaded⟩ := block_of_position room
    apply ends_bind_ok firstLoaded
    apply ends_bind_ok lastLoaded
    have passes : otherBytesToBack (frontGap p.this.beginPos) firstPtr (some lastPtr) p =
        .ok (otherAlignFront firstPtr lastPtr (frontGap p.this.beginPos) p) := by
      apply other_align_front_bytes
      intro step below
      constructor
      · exact front_gap_inside below
      · exact front_gap_inside (front_gap_same offsets ▸ below)
    rw [← List.take_append_drop (frontGap p.this.beginPos) left] at moving
    have copied := other_bytes_to_back_spec _ moving frugal (cached_listed listed)
      (fun _ => ⟨lastPtr, rfl, lastListed⟩)
    rw [List.length_take, Nat.min_eq_left enough, passes, ends_ok] at copied
    obtain ⟨start, stop⟩ :
        (otherAlignFront firstPtr lastPtr (frontGap p.this.beginPos) p).this = _ ∧
          (otherAlignFront firstPtr lastPtr (frontGap p.this.beginPos) p).other = _ :=
      other_align_front_positions _
    refine ⟨copied.1, copied.2, ?_, ?_⟩
    · rw [start]
      exact front_gap_reaches _
    · rw [stop, front_gap_same offsets]
      exact front_gap_reaches _

theorem other_front_blocks_spec {n : Nat} (moving : Moving born rest before p left held)
    (frugal : FrugalBack base p) (fewer : n ≤ left.length) :
    Ends (outOfMemory base) (otherFrontBlocks n p) (fun moved => moved.1 ≤ n ∧
      (0 < n → 0 < moved.1) ∧ Moving born rest before moved.2 (left.drop (n - moved.1))
        (held ++ left.take (n - moved.1)) ∧ FrugalBack base moved.2) := by
  have small := moving_small moving
  unfold otherFrontBlocks
  by_cases whole : wsub p.this.beginPos p.other.endPos % defaultSize = 0 ∧ n > 2 * defaultSize
  · rw [if_pos whole]
    have offsets := same_offset_wrapped (show p.other.endPos < wordSize by omega) whole.1
    have gap := front_gap_small p.this.beginPos
    have length := span_length moving.this
    dsimp only
    rw [Nat.mod_mod]
    apply ends_bind (other_aligned_front_spec moving frugal offsets (by omega))
    rintro aligned ⟨copied, thrifty, start, stop⟩
    have alignedLength := span_length copied.this
    rw [List.length_drop] at alignedLength
    obtain ⟨front, middle, opened⟩ := exists_open_front copied.this.order copied.this.within start
    obtain ⟨filled, behind, receiver⟩ := exists_open_back copied.other.within stop
    have subtracted : wsub n (frontGap p.this.beginPos) = n - frontGap p.this.beginPos :=
      wsub_exact (by omega) (by omega)
    obtain ⟨remaining, after, done, fewerLeft, some_, finished⟩ :=
      other_blocks_to_back_spec copied thrifty opened receiver
        (show n - frontGap p.this.beginPos ≤ aligned.this.endPos - aligned.this.beginPos by omega)
    have total : n - remaining =
        frontGap p.this.beginPos + (n - frontGap p.this.beginPos - remaining) := by omega
    change Ends (outOfMemory base) (otherBlocksToBack (wsub n (frontGap p.this.beginPos)) aligned) _
    rw [subtracted, done, ends_ok]
    refine ⟨by dsimp only; omega, fun _ => some_ (by omega), ?_⟩
    rw [total, ← List.drop_drop, List.take_add, ← List.append_assoc]
    exact finished
  · rw [if_neg whole]
    refine ⟨Nat.le_refl n, fun some_ => some_, ?_⟩
    rw [Nat.sub_self, List.drop_zero, List.take_zero, List.append_nil]
    exact ⟨moving, frugal⟩

theorem other_open_back_spec {rest : List BlockId} {p : Pair} (filled : Filled p.this)
    (rep : Rep p.other) (owns : Owns born p.mem (p.this.buffer ++ (p.other.buffer ++ rest))) :
    Ends (outOfMemory p.mem.live) (otherOpenBack p) (fun opened =>
      Moving born rest p.mem opened (content ⟨p.mem, p.this⟩) (content ⟨p.mem, p.other⟩) ∧
      FrugalBack p.mem.live opened) := by
  unfold otherOpenBack
  cases rep with
  | inl vacant =>
      have none_ : content ⟨p.mem, p.other⟩ = [] := vacant_content vacant
      rw [if_pos vacant.1, none_]
      have span : Span p.mem p.this (content ⟨p.mem, p.this⟩) :=
        ⟨Nat.le_of_lt filled.nonempty, filled.within, rfl⟩
      apply ends_bind (lend_block_spec span (filled_content filled) filled.first owns)
      rintro lent ⟨spanAfter, some_, owned, same, few⟩
      exact ⟨moving_opened (Nat.mod_lt _ block_size_pos) spanAfter some_ owned same,
        frugal_lent few some_ (Nat.mod_le _ _)⟩
  | inr otherFilled =>
      rw [if_neg (filled_not_npos otherFilled (owns_buffer_length (owns_swap owns)))]
      exact ⟨moving_start filled otherFilled owns,
        frugal_start (Nat.le_refl _) otherFilled.within⟩

theorem last_or_null_spec (moving : Moving born rest before p left held) :
    ∃ last, lastOrNull p.other = .ok last ∧ CachedNull p.other.buffer p.other.endPos last := by
  have small := moving_small moving
  unfold lastOrNull
  by_cases boundary : p.other.endPos % defaultSize = 0
  · exact ⟨none, by rw [if_pos boundary], cached_null_boundary boundary⟩
  · have filled : 0 < p.other.endPos := by
      apply Nat.pos_of_ne_zero
      intro start
      rw [start, Nat.zero_mod] at boundary
      exact boundary rfl
    obtain ⟨block, loaded, cached⟩ :=
      load_before p.other.buffer filled moving.other.within (by omega)
    refine ⟨some block, by rw [if_neg boundary, loaded, ok_bind], ?_⟩
    intro inside
    exact ⟨block, rfl, cached inside⟩

theorem min_drop_take (n : Nat) (bytes : List Byte) :
    bytes.drop (if n ≥ bytes.length then bytes.length else n) = bytes.drop n ∧
      bytes.take (if n ≥ bytes.length then bytes.length else n) = bytes.take n := by
  by_cases all : n ≥ bytes.length
  · rw [if_pos all, List.drop_length, List.take_length, List.drop_eq_nil_of_le all,
      List.take_of_length_le all]
    exact ⟨rfl, rfl⟩
  · rw [if_neg all]
    exact ⟨rfl, rfl⟩

theorem remaining_split {count remaining : Nat} {bytes : List Byte} (fewer : remaining ≤ count)
    (fits : count ≤ bytes.length) : ∃ moved : List Byte, moved.length = remaining ∧
      bytes.drop (count - remaining) = moved ++ bytes.drop count ∧
      bytes.take count = bytes.take (count - remaining) ++ moved := by
  have total : count - remaining + remaining = count := Nat.sub_add_cancel fewer
  refine ⟨(bytes.drop (count - remaining)).take remaining, ?_, ?_, ?_⟩
  · rw [List.length_take, List.length_drop]
    omega
  · have split := (List.take_append_drop remaining (bytes.drop (count - remaining))).symm
    rwa [List.drop_drop, total] at split
  · rw [← List.take_add, total]

theorem other_pop_front_to_back_serves (n : Nat) (rep : Rep p.this) (otherRep : Rep p.other)
    (owns : Owns born p.mem (p.this.buffer ++ (p.other.buffer ++ rest))) :
    Ends (outOfMemory p.mem.live) (otherPopFrontToBackN n p) (fun after => PairServes born rest p.mem after
      ((content ⟨p.mem, p.this⟩).drop n)
      (content ⟨p.mem, p.other⟩ ++ (content ⟨p.mem, p.this⟩).take n)) := by
  have bounded := owns_buffer_length owns
  have limit := bytes_bounded bounded
  apply ends_bind_ok (check_normal (rep_within rep) bounded)
  apply ends_bind_ok (check_normal (rep_within otherRep) (owns_buffer_length (owns_swap owns)))
  rw [rep_normal rep, rep_normal otherRep]
  by_cases idle : p.this.beginPos = npos ∨ n = 0
  · rw [if_pos idle]
    have unchanged : (content ⟨p.mem, p.this⟩).drop n = content ⟨p.mem, p.this⟩ ∧
        (content ⟨p.mem, p.this⟩).take n = [] := by
      rcases idle with start | none_
      · rcases rep with vacant | filled
        · have none_ : content ⟨p.mem, p.this⟩ = [] := vacant_content vacant
          rw [none_]
          exact ⟨List.drop_nil, List.take_nil⟩
        · exact absurd start (filled_not_npos filled bounded)
      · rw [none_]
        exact ⟨rfl, rfl⟩
    rw [unchanged.1, unchanged.2, List.append_nil]
    exact ⟨rep, otherRep, owns, fun _ _ => rfl, rfl, rfl⟩
  · rw [if_neg idle, not_or] at *
    rcases rep with vacant | filled
    · exact absurd vacant.1 idle.1
    have held := filled.nonempty
    have within := filled.within
    have length : (content ⟨p.mem, p.this⟩).length = p.this.endPos - p.this.beginPos :=
      content_length within
    obtain ⟨dropped, taken⟩ := min_drop_take n (content ⟨p.mem, p.this⟩)
    rw [filled_difference filled bounded, ← length, ← dropped, ← taken]
    -- What is moved: `n` bytes, or all there are.
    generalize requested : (if n ≥ (content ⟨p.mem, p.this⟩).length then
      (content ⟨p.mem, p.this⟩).length else n) = count
    have fits : 0 < count ∧ count ≤ (content ⟨p.mem, p.this⟩).length := by
      rw [← requested]
      split <;> omega
    apply ends_bind (other_open_back_spec filled otherRep owns)
    rintro opened ⟨moving, frugal⟩
    -- Whole blocks first, then one byte after the other.
    apply ends_bind (other_front_blocks_spec moving frugal fits.2)
    rintro ⟨remaining, moved⟩ ⟨fewer, some_, blocksMoved, thrifty⟩
    obtain ⟨bytes, size, keeps, gains⟩ := remaining_split fewer fits.2
    rw [keeps] at blocksMoved
    have nonempty := span_nonempty blocksMoved.this (by
      intro none_
      have none_ := List.length_eq_zero_iff.mpr none_
      rw [List.length_append, size] at none_
      have positive := some_ fits.1
      omega)
    obtain ⟨firstPtr, listed, firstLoaded⟩ :=
      block_of_position (Nat.lt_of_lt_of_le nonempty blocksMoved.this.within)
    obtain ⟨last, lastLoaded, cached⟩ := last_or_null_spec blocksMoved
    apply ends_bind_ok firstLoaded
    apply ends_bind_ok lastLoaded
    have copied := other_bytes_to_back_spec bytes blocksMoved thrifty (cached_listed listed) cached
    rw [size, List.append_assoc, ← gains] at copied
    apply ends_bind copied
    rintro finished ⟨done, _⟩
    exact ends_total (close_pair_serves done)

end FrontToBack

section BackToFront
variable {rest : List BlockId} {before : Mem} {p : Pair} {left held : List Byte}
  {firstPtr lastPtr : BlockId} {base : Nat}

theorem other_room_front_spec (moving : Moving born rest before p left held)
    (frugal : FrugalFront base p) (some_ : left ≠ []) (start : p.other.beginPos = 0) :
    Ends (outOfMemory base) (otherRoomFront p) (fun room =>
      Moving born rest before room left held ∧ FrugalFront base room ∧
      0 < room.other.beginPos) := by
  have positive := block_size_pos
  have few := owns_buffer_length moving.owns
  have otherFew := owns_buffer_length (moving_other_owned moving)
  have filled := span_nonempty moving.this some_
  unfold FrugalFront at *
  unfold otherRoomFront
  by_cases spare : SpareBack p.this
  · rw [if_pos spare]
    obtain ⟨front, back, listed, inside⟩ := spare_back_listed
      (blocks_positive (Nat.lt_of_lt_of_le filled moving.this.within)) moving.this.within few spare
    rcases p with ⟨mem, ⟨buffer, b, e⟩, ⟨otherBuffer, otherB, otherE⟩⟩
    obtain ⟨this, other, within, owns, frame⟩ := moving
    dsimp only at *
    subst listed start
    rw [List.getLast?_concat, List.dropLast_concat]
    have moved : (front ++ [back] ++ (otherBuffer ++ rest)).Perm
        (front ++ (back :: otherBuffer ++ rest)) := by simp
    refine ⟨⟨span_pop_back this inside, span_push_front other, ?_, owns_perm owns moved, frame⟩, ?_, ?_⟩
    · simp only [List.length_cons, Nat.succ_mul]
      omega
    · rw [List.length_append, List.length_singleton] at frugal
      exact frugal_give frugal
    · dsimp only
      omega
  · rw [if_neg spare]
    -- No block to spare here: the last one of the other buffer may be free.
    by_cases own : p.other.buffer.length > 0 ∧ SpareBack p.other
    · rw [if_pos own]
      have otherFilled := spare_back_filled own.1 otherFew own.2
      obtain ⟨front, back, listed, inside⟩ :=
        spare_back_listed own.1 moving.other.within otherFew own.2
      rcases p with ⟨mem, ⟨buffer, b, e⟩, ⟨otherBuffer, otherB, otherE⟩⟩
      obtain ⟨this, other, within, owns, frame⟩ := moving
      dsimp only at *
      subst listed start
      rw [List.getLast?_concat, List.dropLast_concat]
      have moved : (buffer ++ (front ++ [back] ++ rest)).Perm
          (buffer ++ (back :: front ++ rest)) := by
        apply List.Perm.append_left
        simp
      refine ⟨⟨this, span_push_front (span_pop_back other inside), ?_, owns_perm owns moved, frame⟩,
        frugal_raise frugal (Nat.zero_le _), ?_⟩
      · simp only [List.length_cons, Nat.succ_mul]
        omega
      · dsimp only
        omega
    · rw [if_neg own]
      have full := spare_back_none (Nat.lt_of_lt_of_le (Nat.zero_lt_of_lt filled) moving.this.within)
        few (Nat.zero_lt_of_lt filled) spare
      have low : p.mem.live ≤ base := frugal_live frugal (by omega)
      rcases p with ⟨mem, ⟨buffer, b, e⟩, ⟨otherBuffer, otherB, otherE⟩⟩
      obtain ⟨this, other, within, owns, frame⟩ := moving
      apply ends_bind (ends_mono (new_block_owns owns) (out_of_memory_mono low)
        (fun _ post => post))
      rintro ⟨block, next⟩ ⟨owned, same, grown⟩
      dsimp only at *
      subst start
      have moved : (block :: (buffer ++ (otherBuffer ++ rest))).Perm
          (buffer ++ (block :: otherBuffer ++ rest)) := by
        simpa using List.perm_middle.symm
      refine ⟨⟨span_same this same, span_same (span_push_front other) same, ?_,
        owns_perm owned moved, ?_⟩, frugal_give (frugal_new frugal grown), ?_⟩
      · simp only [List.length_cons, Nat.succ_mul]
        omega
      · intro key foreign
        exact (congrFun same key).trans (frame key foreign)
      · dsimp only
        omega

theorem other_prepare_front_spec (moving : Moving born rest before p left held)
    (frugal : FrugalFront base p) (some_ : left ≠ [])
    (first : Cached p.other.buffer p.other.beginPos firstPtr)
    (last : Cached p.this.buffer p.this.endPos lastPtr) :
    Ends (outOfMemory base) (otherPrepareFront firstPtr lastPtr p) (fun ready =>
      Moving born rest before ready.1 left held ∧ FrugalFront base ready.1 ∧ 0 < ready.1.other.beginPos ∧
      Cached ready.1.other.buffer ready.1.other.beginPos ready.2.1 ∧
      Cached ready.1.this.buffer ready.1.this.endPos ready.2.2) := by
  unfold otherPrepareFront
  by_cases start : p.other.beginPos = 0
  · rw [if_pos start]
    apply ends_bind (other_room_front_spec moving frugal some_ start)
    rintro room ⟨ready, thrifty, ahead⟩
    have small := moving_small ready
    have filled := span_nonempty ready.this some_
    obtain ⟨src, loaded, srcCached⟩ := load_before room.this.buffer (Nat.zero_lt_of_lt filled)
      ready.this.within (by omega)
    obtain ⟨dst, listed, fetched⟩ := block_of_position ready.inside
    apply ends_bind_ok loaded
    apply ends_bind_ok fetched
    exact ⟨ready, thrifty, ahead, cached_listed listed, srcCached⟩
  · rw [if_neg start]
    exact ⟨moving, frugal, Nat.pos_of_ne_zero start, first, last⟩

theorem other_bytes_to_front_spec (moved : List Byte)
    (moving : Moving born rest before p (left ++ moved) held) (frugal : FrugalFront base p)
    (first : Cached p.other.buffer p.other.beginPos firstPtr)
    (last : Cached p.this.buffer p.this.endPos lastPtr) :
    Ends (outOfMemory base) (otherBytesToFront moved.length firstPtr lastPtr p) (fun after =>
      Moving born rest before after left (moved ++ held) ∧ FrugalFront base after) := by
  induction moved using List.reverseRecOn generalizing p held firstPtr lastPtr with
  | nil => simpa [otherBytesToFront, frugal] using moving
  -- The last byte of this is the first one to move.
  | append_singleton moved byte ih =>
      rw [List.length_append, List.length_singleton]
      have some_ : left ++ (moved ++ [byte]) ≠ [] := by simp
      apply ends_bind (other_prepare_front_spec moving frugal some_ first last)
      rintro ⟨room, firstPtr, lastPtr⟩ ⟨ready, thrifty, ahead, firstReady, lastReady⟩
      have small := moving_small ready
      have filled := span_nonempty ready.this some_
      have within := ready.other.within
      have order := ready.other.order
      dsimp only at small filled within order ahead firstReady lastReady ⊢
      obtain ⟨dst, loaded, dstListed⟩ :=
        reload_before_listed ahead (by omega) (by omega) firstReady
      have filledEnd : 0 < room.this.endPos := by omega
      have smallEnd : room.this.endPos < wordSize := by omega
      obtain ⟨src, fetched, srcListed⟩ :=
        reload_before_listed filledEnd ready.this.within smallEnd lastReady
      apply ends_bind_ok loaded
      apply ends_bind_ok fetched
      rw [wsub_exact ahead (by omega), wsub_exact filledEnd smallEnd]
      rw [← List.append_assoc] at ready
      have copied := move_to_front ready ahead dstListed srcListed
      apply ends_weaken (ih copied (frugal_unshift thrifty 1 filledEnd ahead)
        (cached_listed dstListed) (cached_listed srcListed))
      intro after finished
      rwa [List.append_assoc]

theorem other_align_back_bytes (count : Nat) (small : p.other.beginPos < wordSize)
    (endSmall : p.this.endPos < wordSize)
    (inside : ∀ step, step < count → (p.other.beginPos - step) % defaultSize ≠ 0 ∧
      (p.this.endPos - step) % defaultSize ≠ 0) :
    otherBytesToFront count firstPtr lastPtr p =
      .ok (otherAlignBack firstPtr lastPtr count p) := by
  induction count generalizing p with
  | zero => rfl
  | succ count ih =>
      obtain ⟨first, last⟩ := inside 0 (Nat.succ_pos count)
      rw [Nat.sub_zero] at first last
      have ahead : 0 < p.other.beginPos := by
        apply Nat.pos_of_ne_zero
        intro start
        exact first (by rw [start, Nat.zero_mod])
      have filled : 0 < p.this.endPos := by
        apply Nat.pos_of_ne_zero
        intro stop
        exact last (by rw [stop, Nat.zero_mod])
      -- Inside a block neither loop looks for another one.
      rw [otherBytesToFront, otherPrepareFront, if_neg (Nat.ne_of_gt ahead), ok_bind]
      dsimp only
      rw [reloadBefore, if_neg first, ok_bind, reloadBefore, if_neg last, ok_bind, otherAlignBack,
        wsub_exact ahead small, wsub_exact filled endSmall]
      apply ih (Nat.lt_of_le_of_lt (Nat.sub_le _ _) small)
        (Nat.lt_of_le_of_lt (Nat.sub_le _ _) endSmall)
      intro step later
      have shifted := inside (step + 1) (Nat.succ_lt_succ later)
      simpa only [Nat.sub_sub, Nat.add_comm 1] using shifted

theorem other_align_back_positions (count : Nat) (ahead : count ≤ p.other.beginPos)
    (filled : count ≤ p.this.endPos) (small : p.other.beginPos < wordSize)
    (endSmall : p.this.endPos < wordSize) :
    (otherAlignBack firstPtr lastPtr count p).this =
        { p.this with endPos := p.this.endPos - count } ∧
      (otherAlignBack firstPtr lastPtr count p).other =
        { p.other with beginPos := p.other.beginPos - count } := by
  induction count generalizing p with
  | zero => exact ⟨rfl, rfl⟩
  | succ count ih =>
      rw [otherAlignBack, wsub_exact (by omega) small, wsub_exact (by omega) endSmall]
      obtain ⟨stop, start⟩ := ih (p := ⟨copyByte p.mem firstPtr (p.other.beginPos - 1) lastPtr
          (p.this.endPos - 1), { p.this with endPos := p.this.endPos - 1 },
          { p.other with beginPos := p.other.beginPos - 1 }⟩)
        (by dsimp only; omega) (by dsimp only; omega) (by dsimp only; omega) (by dsimp only; omega)
      rw [stop, start]
      simp only [Nat.sub_sub, Nat.add_comm 1, and_self]

theorem frugal_block_front {after : Pair} {middle spare unused filled remains room : List BlockId}
    {last : BlockId} {extent grown : Nat} (frugal : FrugalFront base p)
    (opened : OpenBack p.this (middle ++ [last]) spare)
    (receiver : OpenFront p.other unused filled extent) (shorter : OpenBack after.this middle remains)
    (longer : OpenFront after.other room (last :: filled) grown) (sameMem : after.mem = p.mem)
    (same : (after.this.buffer ++ after.other.buffer).Perm (p.this.buffer ++ p.other.buffer)) :
    FrugalFront base after := by
  have count := same.length_eq
  simp only [opened.listed, receiver.listed, shorter.listed, longer.listed, List.length_append,
    List.length_cons, List.length_nil] at count
  have idle : spare.length + unused.length = remains.length + room.length := by omega
  have places := congrArg (· * defaultSize) idle
  simp only [Nat.add_mul] at places
  unfold FrugalFront Frugal at *
  rw [opened.listed, opened.stop, receiver.start] at frugal
  rw [shorter.listed, shorter.stop, longer.start, sameMem]
  simp only [List.length_append, Nat.add_mul] at frugal ⊢
  omega

theorem other_block_moves_front {middle spare unused filled : List BlockId} {last : BlockId}
    {extent : Nat} (moving : Moving born rest before p left held) (frugal : FrugalFront base p)
    (opened : OpenBack p.this (middle ++ [last]) spare)
    (receiver : OpenFront p.other unused filled extent) (enough : defaultSize ≤ left.length) :
    ∃ after remains room kept moved, otherBlockToFront p = .ok after ∧
      OpenBack after.this middle remains ∧
      OpenFront after.other room (last :: filled) (extent + defaultSize) ∧
      left = kept ++ moved ∧ moved.length = defaultSize ∧
      Moving born rest before after kept (moved ++ held) ∧ FrugalFront base after := by
  obtain ⟨after, remains, room, done, sameMem, shorter, start, longer, same⟩ :=
    other_block_to_front_spec opened receiver (owns_buffer_length moving.owns)
      (owns_buffer_length (moving_other_owned moving))
  have length := span_length moving.this
  have order : p.this.beginPos ≤ middle.length * defaultSize := by
    rw [last_stop opened, Nat.succ_mul] at length
    omega
  have thisSpan : Span p.mem after.this _ := span_open_back shorter (by
    rw [shorter.stop, start]
    exact order)
  have extentFits := open_front_extent receiver moving.other.within
  have longerFits : extent + defaultSize ≤ (last :: filled).length * defaultSize := by
    simp only [List.length_cons, Nat.succ_mul]
    omega
  have otherSpan : Span p.mem after.other _ := span_open_front longer longerFits
  have leftIs : left = _ := moving.this.holds.symm.trans (content_open_back opened)
  have heldIs : held = _ := moving.other.holds.symm.trans (content_open_front receiver)
  rw [flat_append, List.drop_append_of_le_length (by rw [flat_length]; exact order), flat_cons,
    flat_nil, List.append_nil] at leftIs
  rw [take_segment _ _ _ (Nat.le_add_left _ _), Nat.add_sub_cancel, ← heldIs] at otherSpan
  rw [start] at thisSpan
  refine ⟨after, remains, room, _, _, done, shorter, longer, leftIs, segment_length last,
    moving_relisted moving sameMem same thisSpan otherSpan ?_,
    frugal_block_front frugal opened receiver shorter longer sameMem same⟩
  have positive := block_size_pos
  rw [longer.start, longer.listed, List.length_append, List.length_cons, Nat.add_mul, Nat.succ_mul]
  omega

theorem other_blocks_to_front_spec {n : Nat} {middle spare unused filled : List BlockId}
    {extent : Nat} (moving : Moving born rest before p left held) (frugal : FrugalFront base p)
    (opened : OpenBack p.this middle spare) (receiver : OpenFront p.other unused filled extent)
    (short : n ≤ left.length) :
    ∃ remaining after kept moved, otherBlocksToFront n p = .ok (remaining, after) ∧
      remaining ≤ n ∧ (0 < n → 0 < remaining) ∧ left = kept ++ moved ∧
      moved.length = n - remaining ∧ Moving born rest before after kept (moved ++ held) ∧
      FrugalFront base after := by
  induction n using Nat.strong_induction_on generalizing p left held middle spare unused filled
    extent with
  | _ n ih =>
    rw [otherBlocksToFront]
    by_cases big : n > defaultSize
    · rw [if_pos big]
      have positive := block_size_pos
      have length := span_length moving.this
      rcases List.eq_nil_or_concat middle with rfl | ⟨others, last, rfl⟩
      · have stop := opened.stop
        rw [List.length_nil, Nat.zero_mul] at stop
        omega
      rw [List.concat_eq_append] at opened
      obtain ⟨next, remains, room, kept, moved, done, shorter, longer, split, size, once, thrifty⟩ :=
        other_block_moves_front moving frugal opened receiver (by omega)
      have keptLength : left.length = kept.length + defaultSize := by
        rw [split, List.length_append, size]
      obtain ⟨remaining, after, keptAfter, movedAfter, rest_, fewer, some_, splitAfter, sizeAfter,
        finished⟩ := ih (n - defaultSize) (by omega) once thrifty shorter longer (by omega)
      refine ⟨remaining, after, keptAfter, movedAfter ++ moved, by rw [done, ok_bind, rest_],
        by omega, fun _ => some_ (by omega), ?_, ?_, ?_⟩
      · rw [split, splitAfter, List.append_assoc]
      · rw [List.length_append, size, sizeAfter]
        omega
      · rw [List.append_assoc]
        exact finished
    · rw [if_neg big]
      exact ⟨n, p, left, [], rfl, Nat.le_refl n, fun some_ => some_, (List.append_nil _).symm,
        (Nat.sub_self n).symm, moving, frugal⟩

theorem split_last {count : Nat} {bytes : List Byte} (fits : count ≤ bytes.length) :
    ∃ kept moved : List Byte, bytes = kept ++ moved ∧ moved.length = count := by
  refine ⟨bytes.take (bytes.length - count), bytes.drop (bytes.length - count),
    (List.take_append_drop _ _).symm, ?_⟩
  rw [List.length_drop]
  omega

theorem other_align_back_spec (moving : Moving born rest before p left held)
    (frugal : FrugalFront base p)
    (offsets : p.this.endPos % defaultSize = p.other.beginPos % defaultSize)
    (enough : p.this.endPos % defaultSize ≤ left.length)
    (first : Cached p.other.buffer p.other.beginPos firstPtr)
    (last : Cached p.this.buffer p.this.endPos lastPtr) :
    ∃ kept moved, left = kept ++ moved ∧ moved.length = p.this.endPos % defaultSize ∧
      Moving born rest before (otherAlignBack firstPtr lastPtr (p.this.endPos % defaultSize) p) kept
        (moved ++ held) ∧
      FrugalFront base (otherAlignBack firstPtr lastPtr (p.this.endPos % defaultSize) p) ∧
      (otherAlignBack firstPtr lastPtr (p.this.endPos % defaultSize) p).this.endPos %
        defaultSize = 0 ∧
      (otherAlignBack firstPtr lastPtr (p.this.endPos % defaultSize) p).other.beginPos %
        defaultSize = 0 := by
  have small := moving_small moving
  have order := moving.other.order
  have passes : otherBytesToFront (p.this.endPos % defaultSize) firstPtr lastPtr p =
      .ok (otherAlignBack firstPtr lastPtr (p.this.endPos % defaultSize) p) := by
    apply other_align_back_bytes _ (by omega) (by omega)
    intro step below
    constructor
    · exact back_gap_inside (offsets ▸ below)
    · exact back_gap_inside below
  have ahead : p.this.endPos % defaultSize ≤ p.other.beginPos := by
    rw [offsets]
    exact Nat.mod_le _ _
  obtain ⟨stop, start⟩ :
      (otherAlignBack firstPtr lastPtr (p.this.endPos % defaultSize) p).this = _ ∧
        (otherAlignBack firstPtr lastPtr (p.this.endPos % defaultSize) p).other = _ :=
    other_align_back_positions _ ahead (Nat.mod_le _ _) (by omega) (by omega)
  obtain ⟨kept, moved, split, size⟩ := split_last enough
  rw [split] at moving
  have copied := other_bytes_to_front_spec moved moving frugal first last
  rw [size, passes, ends_ok] at copied
  refine ⟨kept, moved, split, size, copied.1, copied.2, ?_, ?_⟩
  · rw [stop]
    exact back_gap_reaches _
  · rw [start, offsets]
    exact back_gap_reaches _

theorem other_back_blocks_spec {n : Nat} (moving : Moving born rest before p left held)
    (frugal : FrugalFront base p) (fewer : n ≤ left.length) :
    Ends (outOfMemory base) (otherBackBlocks n p) (fun result => result.1 ≤ n ∧
      (0 < n → 0 < result.1) ∧ FrugalFront base result.2 ∧
      ∃ kept moved, left = kept ++ moved ∧ moved.length = n - result.1 ∧
        Moving born rest before result.2 kept (moved ++ held)) := by
  have small := moving_small moving
  have length := span_length moving.this
  unfold otherBackBlocks
  by_cases whole : wsub p.this.endPos p.other.beginPos % defaultSize = 0 ∧ n > 2 * defaultSize
  · rw [if_pos whole]
    have order := moving.other.order
    have within := moving.this.within
    have offsets := same_offset_wrapped (show p.other.beginPos < wordSize by omega) whole.1
    have gap := Nat.mod_lt p.this.endPos block_size_pos
    have filled : 0 < p.this.endPos := by omega
    obtain ⟨lastPtr, lastLoaded, lastCached⟩ :=
      load_before p.this.buffer filled within (by omega)
    obtain ⟨firstPtr, listed, firstLoaded⟩ := block_of_position moving.inside
    apply ends_bind_ok lastLoaded
    apply ends_bind_ok firstLoaded
    rw [wsub_exact filled (by omega), back_gap filled]
    obtain ⟨kept, moved, split, size, copied, aligned, stop, start⟩ := other_align_back_spec moving
      frugal offsets (by omega) (cached_listed listed) lastCached
    have keptLength : left.length = kept.length + p.this.endPos % defaultSize := by
      rw [split, List.length_append, size]
    obtain ⟨middle, spare, opened⟩ := exists_open_back copied.this.within stop
    obtain ⟨unused, filledBlocks, receiver⟩ :=
      exists_open_front copied.other.order copied.other.within start
    obtain ⟨remaining, after, keptAfter, movedAfter, done, fewerLeft, some_, splitAfter, sizeAfter,
      finished, thrifty⟩ := other_blocks_to_front_spec copied aligned opened receiver
        (show n - p.this.endPos % defaultSize ≤ kept.length by omega)
    rw [wsub_exact (show p.this.endPos % defaultSize ≤ n by omega) (by omega), done, ends_ok]
    refine ⟨by dsimp only; omega, fun _ => some_ (by omega), thrifty, keptAfter,
      movedAfter ++ moved, ?_, ?_, ?_⟩
    · rw [split, splitAfter, List.append_assoc]
    · rw [List.length_append, size, sizeAfter]
      dsimp only
      omega
    · rw [List.append_assoc]
      exact finished
  · rw [if_neg whole]
    exact ⟨Nat.le_refl n, fun some_ => some_, frugal, left, [], (List.append_nil _).symm,
      (Nat.sub_self n).symm, moving⟩

theorem other_open_front_spec {rest : List BlockId} {p : Pair} (filled : Filled p.this)
    (rep : Rep p.other) (owns : Owns born p.mem (p.this.buffer ++ (p.other.buffer ++ rest))) :
    Ends (outOfMemory (p.mem.live + 1)) (otherOpenFront p) (fun opened =>
      Moving born rest p.mem opened (content ⟨p.mem, p.this⟩) (content ⟨p.mem, p.other⟩) ∧
      FrugalFront (p.mem.live + 1) opened) := by
  unfold otherOpenFront
  cases rep with
  | inl vacant =>
      have none_ : content ⟨p.mem, p.other⟩ = [] := vacant_content vacant
      rw [if_pos vacant.1, none_]
      have span : Span p.mem p.this (content ⟨p.mem, p.this⟩) :=
        ⟨Nat.le_of_lt filled.nonempty, filled.within, rfl⟩
      apply ends_bind (ends_mono (lend_block_spec span (filled_content filled) filled.first owns)
        (out_of_memory_mono (Nat.le_succ _)) (fun _ lent => lent))
      rintro lent ⟨spanAfter, some_, owned, same, few⟩
      exact ⟨moving_opened (Nat.mod_lt _ block_size_pos) spanAfter some_ owned same,
        frugal_start few spanAfter.within⟩
  | inr otherFilled =>
      rw [if_neg (filled_not_npos otherFilled (owns_buffer_length (owns_swap owns)))]
      exact ⟨moving_start filled otherFilled owns, frugal_start (Nat.le_succ _) filled.within⟩

theorem other_pop_back_to_front_serves (n : Nat) (rep : Rep p.this) (otherRep : Rep p.other)
    (owns : Owns born p.mem (p.this.buffer ++ (p.other.buffer ++ rest))) :
    Ends (outOfMemory (p.mem.live + 1)) (otherPopBackToFrontN n p) (fun after => PairServes born rest p.mem after
      ((content ⟨p.mem, p.this⟩).take ((content ⟨p.mem, p.this⟩).length - n))
      ((content ⟨p.mem, p.this⟩).drop ((content ⟨p.mem, p.this⟩).length - n) ++
        content ⟨p.mem, p.other⟩)) := by
  have bounded := owns_buffer_length owns
  have limit := bytes_bounded bounded
  apply ends_bind_ok (check_normal (rep_within rep) bounded)
  apply ends_bind_ok (check_normal (rep_within otherRep) (owns_buffer_length (owns_swap owns)))
  rw [rep_normal rep, rep_normal otherRep]
  cases rep with
  | inl vacant =>
      have none_ : content ⟨p.mem, p.this⟩ = [] := vacant_content vacant
      rw [if_pos vacant.1, none_, List.take_nil, List.drop_nil, List.nil_append]
      exact ⟨Or.inl vacant, otherRep, owns, fun _ _ => rfl, none_, rfl⟩
  | inr filled =>
      have held := filled.nonempty
      have within := filled.within
      have length : (content ⟨p.mem, p.this⟩).length = p.this.endPos - p.this.beginPos :=
        content_length within
      rw [if_neg (filled_not_npos filled bounded),
        filled_difference filled bounded, ← length]
      generalize requested : (if n ≥ (content ⟨p.mem, p.this⟩).length then
        (content ⟨p.mem, p.this⟩).length else n) = count
      have fits : count ≤ (content ⟨p.mem, p.this⟩).length ∧
          (content ⟨p.mem, p.this⟩).length - count = (content ⟨p.mem, p.this⟩).length - n := by
        rw [← requested]
        split <;> omega
      apply ends_bind (other_open_front_spec filled otherRep owns)
      rintro opened ⟨moving, frugal⟩
      apply ends_bind (other_back_blocks_spec moving frugal fits.1)
      rintro ⟨remaining, blocks⟩ ⟨fewer, some_, thrifty, kept, moved, split, size, blocksMoved⟩
      dsimp only at fewer some_ size blocksMoved ⊢
      have keptLength : (content ⟨p.mem, p.this⟩).length = kept.length + (count - remaining) := by
        rw [split, List.length_append, size]
      have nonempty := span_nonempty blocksMoved.this (by
        rintro rfl
        rw [List.length_nil] at keptLength
        omega)
      have small := moving_small blocksMoved
      obtain ⟨lastPtr, lastLoaded, lastCached⟩ := load_before blocks.this.buffer
        (Nat.zero_lt_of_lt nonempty) blocksMoved.this.within (by omega)
      obtain ⟨firstPtr, listed, firstLoaded⟩ := block_of_position blocksMoved.inside
      apply ends_bind_ok lastLoaded
      apply ends_bind_ok firstLoaded
      obtain ⟨left, bytes, keptSplit, bytesSize⟩ :=
        split_last (show remaining ≤ kept.length by omega)
      rw [keptSplit] at blocksMoved
      have copied := other_bytes_to_front_spec bytes blocksMoved thrifty (cached_listed listed)
        lastCached
      rw [bytesSize, ← List.append_assoc] at copied
      apply ends_bind copied
      rintro finished ⟨done, _⟩
      have total : content ⟨p.mem, p.this⟩ = left ++ (bytes ++ moved) := by
        rw [split, keptSplit, List.append_assoc]
      have remains : left.length = (content ⟨p.mem, p.this⟩).length - n := by
        rw [← fits.2, total]
        simp only [List.length_append]
        rw [keptSplit, List.length_append] at keptLength
        omega
      have front : (content ⟨p.mem, p.this⟩).take ((content ⟨p.mem, p.this⟩).length - n) = left := by
        rw [← remains, total, List.take_left]
      have back : (content ⟨p.mem, p.this⟩).drop ((content ⟨p.mem, p.this⟩).length - n) =
          bytes ++ moved := by
        rw [← remains, total, List.drop_left]
      rw [front, back]
      exact ends_total (close_pair_serves done)

end BackToFront

end Npoller.PairTransfer
