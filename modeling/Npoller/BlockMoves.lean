import Npoller.IoBufferTransfer
import Npoller.IoBufferSpec

/-!
The block loops of the transfers. Between aligned positions a deque is a list of
unused blocks, the blocks of the content and a list of spare blocks, and one
pass of a loop takes one block from one end of a content to the other end of it
or of another, and puts an unused block into the slot it leaves.
-/

namespace Npoller.BlockMoves

open Outcome SizeT MemContainer IoBuffer IoBufferSpec IoBufferTransfer Segments

structure Aligned (cb : ControlBlock) (front middle spare : List BlockId) : Prop where
  listed : cb.buffer = front ++ (middle ++ spare)
  start : cb.beginPos = front.length * defaultSize
  stop : cb.endPos = (front.length + middle.length) * defaultSize

section Positions

theorem block_start_index (index : Nat) : index * defaultSize / defaultSize = index :=
  Nat.mul_div_cancel index block_size_pos

theorem block_stop_index (index : Nat) :
    ((index + 1) * defaultSize - 1) / defaultSize = index := by
  have positive := block_size_pos
  rw [Nat.succ_mul, Nat.add_sub_assoc positive, Nat.mul_comm, Nat.mul_add_div positive,
    Nat.div_eq_of_lt (Nat.sub_lt positive Nat.one_pos), Nat.add_zero]

theorem wsub_one_index {index : Nat} (few : index < maxBlocks) :
    wsub ((index + 1) * defaultSize) 1 / defaultSize = index := by
  have positive : 1 ≤ (index + 1) * defaultSize := Nat.mul_pos (Nat.succ_pos index) block_size_pos
  rw [wsub_position (Nat.succ_le_of_lt few) (Nat.le_refl _) positive, block_stop_index]

theorem wsub_block {index : Nat} (few : index < maxBlocks) :
    wsub ((index + 1) * defaultSize) defaultSize = index * defaultSize := by
  have positive : defaultSize ≤ (index + 1) * defaultSize :=
    Nat.le_mul_of_pos_left _ (Nat.succ_pos index)
  rw [wsub_position (Nat.succ_le_of_lt few) (Nat.le_refl _) positive, Nat.succ_mul,
    Nat.add_sub_cancel]

theorem block_at_middle (front rest : List BlockId) (block : BlockId) :
    blockAt (front ++ block :: rest) front.length = .ok block :=
  block_at_listed (by simp)

theorem set_middle (front rest : List BlockId) (old new : BlockId) :
    (front ++ old :: rest).set front.length new = front ++ new :: rest := by
  simp

theorem aligned_length {cb : ControlBlock} {front middle spare : List BlockId}
    (aligned : Aligned cb front middle spare) :
    cb.buffer.length = front.length + middle.length + spare.length := by
  simp [aligned.listed, Nat.add_assoc]

theorem content_aligned {mem : Mem} {cb : ControlBlock} {front middle spare : List BlockId}
    (aligned : Aligned cb front middle spare) :
    content ⟨mem, cb⟩ = flat defaultSize mem.cells middle := by
  have head : (flat defaultSize mem.cells front).length = front.length * defaultSize :=
    flat_length front
  have size : (flat defaultSize mem.cells middle).length = middle.length * defaultSize :=
    flat_length middle
  rw [content, window, aligned.listed, aligned.start, aligned.stop, Nat.add_mul, flat_append,
    ← head, List.take_length_add_append, List.drop_left, flat_append,
    ← size, List.take_left]

theorem exists_aligned {cb : ControlBlock} (order : cb.beginPos ≤ cb.endPos)
    (within : cb.endPos ≤ cb.buffer.length * defaultSize)
    (start : cb.beginPos % defaultSize = 0) (stop : cb.endPos % defaultSize = 0) :
    ∃ front middle spare, Aligned cb front middle spare := by
  obtain ⟨first, firstIs⟩ := Nat.dvd_of_mod_eq_zero start
  obtain ⟨last, lastIs⟩ := Nat.dvd_of_mod_eq_zero stop
  rw [Nat.mul_comm] at firstIs lastIs
  rw [firstIs, lastIs] at order
  rw [lastIs] at within
  have ordered := Nat.le_of_mul_le_mul_right order block_size_pos
  have bounded := Nat.le_of_mul_le_mul_right within block_size_pos
  refine ⟨cb.buffer.take first, (cb.buffer.drop first).take (last - first),
    (cb.buffer.drop first).drop (last - first), ⟨?_, ?_, ?_⟩⟩
  · rw [List.take_append_drop, List.take_append_drop]
  · rw [List.length_take, Nat.min_eq_left (by omega), firstIs]
  · rw [List.length_take, List.length_take, List.length_drop, Nat.min_eq_left (by omega),
      Nat.min_eq_left (by omega), Nat.add_sub_of_le ordered, lastIs]

end Positions

section SelfFrontToBack

theorem swap_perm (front middle spare : List BlockId) (first temp : BlockId) :
    (front ++ temp :: (middle ++ first :: spare)).Perm
      (front ++ first :: (middle ++ temp :: spare)) := by
  refine List.Perm.append_left front ?_
  have lifted : (temp :: (middle ++ first :: spare)).Perm (temp :: first :: (middle ++ spare)) :=
    List.Perm.cons temp List.perm_middle
  have lowered : (first :: temp :: (middle ++ spare)).Perm (first :: (middle ++ temp :: spare)) :=
    List.Perm.cons first List.perm_middle.symm
  exact lifted.trans ((List.Perm.swap first temp _).trans lowered)

theorem self_block_to_back_spec {cb : ControlBlock} {front middle spare : List BlockId}
    {first : BlockId} (aligned : Aligned cb front (first :: middle) spare) :
    ∃ after unused behind, selfBlockToBack cb = .ok after ∧
      Aligned after unused (middle ++ [first]) behind ∧ after.buffer.Perm cb.buffer := by
  rcases cb with ⟨buffer, beginPos, endPos⟩
  obtain ⟨rfl, rfl, rfl⟩ := aligned
  have found := block_at_middle front (middle ++ spare) first
  cases spare with
  | cons temp spare =>
      have stop : front.length + (first :: middle).length =
          (front ++ first :: middle).length := by simp
      have inside : (front ++ first :: middle).length * defaultSize ≠
          (front ++ first :: (middle ++ temp :: spare)).length * defaultSize := by
        apply Nat.ne_of_lt
        apply Nat.mul_lt_mul_of_pos_right _ block_size_pos
        simp
      have behind := block_at_middle (front ++ first :: middle) spare temp
      have slots := set_middle (front ++ first :: middle) spare temp first
      rw [List.append_assoc, List.cons_append] at behind slots
      refine ⟨⟨front ++ temp :: (middle ++ first :: spare), front.length * defaultSize + defaultSize,
        (front ++ first :: middle).length * defaultSize + defaultSize⟩,
        front ++ [temp], spare, ?_, ⟨by simp, ?_, ?_⟩, swap_perm front middle spare first temp⟩
      · simp only [selfBlockToBack, block_start_index, List.cons_append, stop]
        rw [found, ok_bind, if_pos inside, behind, ok_bind, slots, List.append_assoc,
          List.cons_append, set_middle]
      · simp [Nat.succ_mul]
      · simp only [List.length_append, List.length_cons, ← Nat.succ_mul]
        congr 1
        simp
        omega
  | nil =>
      have full : ¬(front.length + (first :: middle).length) * defaultSize ≠
          (front ++ (first :: middle)).length * defaultSize := by simp
      rw [List.append_nil] at found
      cases front with
      | cons head front =>
          have ahead : (head :: front).length * defaultSize ≠ 0 :=
            Nat.ne_of_gt (Nat.mul_pos (Nat.succ_pos _) block_size_pos)
          have slots := set_middle (head :: front) (middle ++ [first]) first head
          rw [← List.cons_append, ← List.append_assoc] at slots
          refine ⟨⟨front ++ head :: (middle ++ [first]), (head :: front).length * defaultSize,
            ((head :: front).length + (first :: middle).length) * defaultSize⟩,
            front ++ [head], [], ?_, ⟨by simp, by simp, by simp⟩, ?_⟩
          · simp only [selfBlockToBack, block_start_index, List.append_nil]
            have back : blockAt (head :: front ++ first :: middle ++ [first]) 0 = .ok head := rfl
            rw [found, ok_bind, if_neg full, if_pos ahead, back, ok_bind, slots]
            rfl
          · have turned := List.Perm.append_left front (List.perm_append_singleton first middle)
            have whole := List.perm_middle.trans (List.Perm.cons head turned)
            simpa using whole
      | nil =>
          refine ⟨⟨middle ++ [first], 0, (first :: middle).length * defaultSize⟩, [], [],
            ?_, ⟨by simp, by simp, by simp⟩, by simp [List.perm_append_singleton]⟩
          simp only [selfBlockToBack, block_start_index, List.append_nil]
          rw [found, ok_bind, if_neg full]
          simp

end SelfFrontToBack

section Open

/-- The end of the content at a block start; `spare` lies behind it. -/
structure OpenBack (cb : ControlBlock) (held spare : List BlockId) : Prop where
  listed : cb.buffer = held ++ spare
  stop : cb.endPos = held.length * defaultSize

/-- The start of the content at a block start, its end `extent` bytes later. -/
structure OpenFront (cb : ControlBlock) (unused held : List BlockId) (extent : Nat) : Prop where
  listed : cb.buffer = unused ++ held
  start : cb.beginPos = unused.length * defaultSize
  stop : cb.endPos = unused.length * defaultSize + extent

theorem content_open_back {mem : Mem} {cb : ControlBlock} {held spare : List BlockId}
    (opened : OpenBack cb held spare) :
    content ⟨mem, cb⟩ = (flat defaultSize mem.cells held).drop cb.beginPos := by
  have length : (flat defaultSize mem.cells held).length = held.length * defaultSize :=
    flat_length held
  rw [content, window, opened.listed, opened.stop, flat_append, ← length, List.take_left]

theorem content_open_front {mem : Mem} {cb : ControlBlock} {unused held : List BlockId}
    {extent : Nat} (opened : OpenFront cb unused held extent) :
    content ⟨mem, cb⟩ = (flat defaultSize mem.cells held).take extent := by
  have length : (flat defaultSize mem.cells unused).length = unused.length * defaultSize :=
    flat_length unused
  rw [content, window, opened.listed, opened.start, opened.stop, flat_append, ← length,
    List.take_length_add_append, List.drop_left]

variable {cb : ControlBlock} {held spare : List BlockId} {last : BlockId}

theorem exists_open_back (within : cb.endPos ≤ cb.buffer.length * defaultSize)
    (stop : cb.endPos % defaultSize = 0) : ∃ held spare, OpenBack cb held spare := by
  obtain ⟨blocks, stopIs⟩ := Nat.dvd_of_mod_eq_zero stop
  rw [Nat.mul_comm] at stopIs
  rw [stopIs] at within
  have bounded := Nat.le_of_mul_le_mul_right within block_size_pos
  refine ⟨cb.buffer.take blocks, cb.buffer.drop blocks, (List.take_append_drop _ _).symm, ?_⟩
  rw [List.length_take, Nat.min_eq_left bounded, stopIs]

theorem exists_open_front (order : cb.beginPos ≤ cb.endPos)
    (within : cb.endPos ≤ cb.buffer.length * defaultSize)
    (start : cb.beginPos % defaultSize = 0) :
    ∃ unused held, OpenFront cb unused held (cb.endPos - cb.beginPos) := by
  obtain ⟨blocks, startIs⟩ := Nat.dvd_of_mod_eq_zero start
  rw [Nat.mul_comm] at startIs
  have fits := Nat.le_trans order within
  rw [startIs] at fits
  have bounded := Nat.le_of_mul_le_mul_right fits block_size_pos
  have length : (cb.buffer.take blocks).length * defaultSize = cb.beginPos := by
    rw [List.length_take, Nat.min_eq_left bounded, startIs]
  refine ⟨cb.buffer.take blocks, cb.buffer.drop blocks, (List.take_append_drop _ _).symm,
    length.symm, ?_⟩
  rw [length, Nat.add_sub_of_le order]

theorem open_front_extent {unused : List BlockId} {extent : Nat}
    (opened : OpenFront cb unused held extent)
    (within : cb.endPos ≤ cb.buffer.length * defaultSize) : extent ≤ held.length * defaultSize := by
  rw [opened.stop, opened.listed, List.length_append, Nat.add_mul] at within
  exact Nat.le_of_add_le_add_left within

theorem last_few (opened : OpenBack cb (held ++ [last]) spare)
    (bounded : cb.buffer.length ≤ maxBlocks) : held.length < maxBlocks := by
  rw [opened.listed, List.length_append, List.length_append, List.length_singleton] at bounded
  omega

theorem last_stop (opened : OpenBack cb (held ++ [last]) spare) :
    cb.endPos = (held.length + 1) * defaultSize := by
  rw [opened.stop, List.length_append, List.length_singleton]

theorem last_index (opened : OpenBack cb (held ++ [last]) spare)
    (bounded : cb.buffer.length ≤ maxBlocks) :
    wsub cb.endPos 1 / defaultSize = held.length := by
  rw [last_stop opened, wsub_one_index (last_few opened bounded)]

theorem last_block_stop (opened : OpenBack cb (held ++ [last]) spare)
    (bounded : cb.buffer.length ≤ maxBlocks) :
    wsub cb.endPos defaultSize = held.length * defaultSize := by
  rw [last_stop opened, wsub_block (last_few opened bounded)]

theorem last_spare (opened : OpenBack cb (held ++ [last]) spare)
    (bounded : cb.buffer.length ≤ maxBlocks) : SpareBack cb ↔ spare ≠ [] := by
  have small := blocks_fit
  have total : cb.buffer.length = held.length + 1 + spare.length := by
    rw [opened.listed, List.length_append, List.length_append, List.length_singleton]
  rw [SpareBack, last_index opened bounded, wsub_exact (by omega) (by omega),
    ← List.length_pos_iff]
  omega

end Open

section SelfBackToFront

theorem self_block_to_front_spec {cb : ControlBlock} {front middle spare : List BlockId}
    {last : BlockId} (aligned : Aligned cb front (middle ++ [last]) spare)
    (bounded : cb.buffer.length ≤ maxBlocks) :
    ∃ after unused behind, selfBlockToFront cb = .ok after ∧
      Aligned after unused (last :: middle) behind ∧ after.buffer.Perm cb.buffer := by
  have opened : OpenBack cb (front ++ middle ++ [last]) spare :=
    ⟨by simp [aligned.listed], by simp [aligned.stop]⟩
  have index := last_index opened bounded
  have stop := last_block_stop opened bounded
  have spareIff := last_spare opened bounded
  have few := last_few opened bounded
  have found := block_at_middle (front ++ middle) spare last
  rw [← List.singleton_append, ← List.append_assoc, ← opened.listed] at found
  rcases List.eq_nil_or_concat front with rfl | ⟨ahead, temp, rfl⟩
  · have start : ¬cb.beginPos ≠ 0 := by simp [aligned.start]
    rcases List.eq_nil_or_concat spare with rfl | ⟨behind, back, rfl⟩
    · have listed : cb.buffer = middle ++ [last] := by simpa using aligned.listed
      have full : ¬SpareBack cb := by simp [spareIff]
      refine ⟨{ cb with buffer := last :: middle }, [], [], ?_, ⟨by simp, by simp [aligned.start],
        by simp [aligned.stop]⟩, ?_⟩
      · simp only [selfBlockToFront, index]
        rw [found, ok_bind, if_neg start, if_neg full, listed, ← List.cons_append,
          List.dropLast_concat]
      · rw [listed]
        exact (List.perm_append_singleton last middle).symm
    · rw [List.concat_eq_append] at *
      have listed : cb.buffer = middle ++ last :: (behind ++ [back]) := by
        simpa using aligned.listed
      have room : SpareBack cb := by simp [spareIff]
      have backAt := block_at_middle (last :: (middle ++ last :: behind)) [] back
      refine ⟨{ cb with buffer := last :: (middle ++ back :: behind) }, [], back :: behind, ?_,
        ⟨by simp, by simp [aligned.start], by simp [aligned.stop]⟩, ?_⟩
      · simp only [selfBlockToFront, index]
        rw [found, ok_bind, if_neg start, if_pos room, listed]
        have shape : last :: (middle ++ last :: (behind ++ [back])) =
            last :: (middle ++ last :: behind) ++ [back] := by simp
        have size : (middle ++ last :: (behind ++ [back])).length =
            (last :: (middle ++ last :: behind)).length := by simp [Nat.add_assoc]
        have whole : blockAt (last :: (middle ++ last :: (behind ++ [back])))
            (middle ++ last :: (behind ++ [back])).length = .ok back := by
          rw [shape, size, backAt]
        rw [whole, ok_bind, List.nil_append]
        have slotted : (last :: (middle ++ last :: (behind ++ [back]))).set (middle.length + 1) back =
            last :: (middle ++ back :: behind) ++ [back] := by
          simp
        rw [slotted, List.dropLast_concat]
      · rw [listed]
        have turned := (List.perm_append_singleton back (last :: behind)).symm
        have swapped := (List.Perm.swap back last behind).trans turned
        exact List.perm_middle.symm.trans (List.Perm.append_left middle swapped)
  · rw [List.concat_eq_append] at *
    have before : cb.beginPos = (ahead.length + 1) * defaultSize := by simp [aligned.start]
    have start : cb.beginPos ≠ 0 := by
      rw [before]
      exact Nat.ne_of_gt (Nat.mul_pos (Nat.succ_pos _) block_size_pos)
    have fewAhead : ahead.length < maxBlocks := by
      rw [List.length_append, List.length_append, List.length_singleton] at few
      omega
    have listed : cb.buffer = ahead ++ temp :: (middle ++ last :: spare) := by
      simpa using aligned.listed
    have tempAt := block_at_middle ahead (middle ++ last :: spare) temp
    have slots := set_middle ahead (middle ++ last :: spare) temp last
    refine ⟨⟨ahead ++ last :: (middle ++ temp :: spare), ahead.length * defaultSize,
      (ahead ++ [temp] ++ middle).length * defaultSize⟩, ahead, temp :: spare, ?_,
      ⟨by simp, rfl, congrArg (· * defaultSize) (by simp)⟩, ?_⟩
    · simp only [selfBlockToFront, index]
      rw [found, ok_bind, if_pos start, before, wsub_one_index fewAhead, wsub_block fewAhead, stop,
        listed, tempAt, ok_bind, slots]
      have slotted : (ahead ++ last :: (middle ++ last :: spare)).set
          (ahead ++ [temp] ++ middle).length temp = ahead ++ last :: (middle ++ temp :: spare) := by
        simp
      rw [slotted]
    · rw [listed]
      exact swap_perm ahead middle spare temp last

end SelfBackToFront

section OtherFrontToBack

theorem other_block_to_back_spec {p : Pair} {front middle held behind : List BlockId}
    {first : BlockId} {extent : Nat} (opened : OpenFront p.this front (first :: middle) extent)
    (receiver : OpenBack p.other held behind) (some_ : defaultSize ≤ extent)
    (small : p.this.endPos < wordSize) :
    ∃ after unused room, otherBlockToBack p = .ok after ∧ after.mem = p.mem ∧
      OpenFront after.this unused middle (extent - defaultSize) ∧
      OpenBack after.other (held ++ [first]) room ∧
      after.other.beginPos = p.other.beginPos ∧
      (after.this.buffer ++ after.other.buffer).Perm (p.this.buffer ++ p.other.buffer) := by
  rcases p with ⟨mem, ⟨buffer, beginPos, endPos⟩, ⟨otherBuffer, otherBegin, otherEnd⟩⟩
  obtain ⟨rfl, rfl, rfl⟩ := opened
  obtain ⟨rfl, rfl⟩ := receiver
  dsimp only at small
  have found := block_at_middle front middle first
  cases behind with
  | cons temp behind =>
      have inside : held.length * defaultSize ≠ (held ++ temp :: behind).length * defaultSize := by
        apply Nat.ne_of_lt
        apply Nat.mul_lt_mul_of_pos_right _ block_size_pos
        simp
      refine ⟨⟨mem, ⟨front ++ temp :: middle, front.length * defaultSize + defaultSize,
          front.length * defaultSize + extent⟩,
          ⟨held ++ first :: behind, otherBegin, held.length * defaultSize + defaultSize⟩⟩,
        front ++ [temp], behind, ?_, rfl, ⟨by simp, by simp [Nat.succ_mul], ?_⟩,
        ⟨by simp, by simp [Nat.succ_mul]⟩, rfl, ?_⟩
      · simp only [otherBlockToBack, block_start_index]
        rw [found, ok_bind, if_pos inside, block_at_middle, ok_bind, set_middle, set_middle]
      · simp only [List.length_append, List.length_singleton, Nat.succ_mul]
        omega
      · have swapped := swap_perm front (middle ++ held) behind first temp
        simpa using swapped
  | nil =>
      have full : ¬held.length * defaultSize ≠ (held ++ []).length * defaultSize := by simp
      have shorter : wsub (front.length * defaultSize + extent) defaultSize =
          front.length * defaultSize + (extent - defaultSize) := by
        rw [wsub_exact (by omega) small, Nat.add_sub_assoc some_]
      cases front with
      | cons head front =>
          have ahead : (head :: front).length * defaultSize ≠ 0 :=
            Nat.ne_of_gt (Nat.mul_pos (Nat.succ_pos _) block_size_pos)
          refine ⟨⟨mem, ⟨front ++ head :: middle, (head :: front).length * defaultSize,
              (head :: front).length * defaultSize + (extent - defaultSize)⟩,
              ⟨held ++ [first], otherBegin, held.length * defaultSize + defaultSize⟩⟩,
            front ++ [head], [], ?_, rfl, ⟨by simp, by simp, by simp⟩,
            ⟨by simp, by simp [Nat.succ_mul]⟩, rfl, ?_⟩
          · have headAt : blockAt (head :: front ++ first :: middle) 0 = .ok head := rfl
            have slots := set_middle (head :: front) middle first head
            simp only [otherBlockToBack, block_start_index]
            rw [found, ok_bind, if_neg full, if_pos ahead, headAt, ok_bind, slots, shorter,
              List.append_nil]
            rfl
          · have moved := List.perm_append_singleton first (middle ++ held)
            have behindFront := List.Perm.cons head (List.Perm.append_left front moved)
            simpa using List.perm_middle.trans behindFront
      | nil =>
          refine ⟨⟨mem, ⟨middle, 0, extent - defaultSize⟩,
              ⟨held ++ [first], otherBegin, held.length * defaultSize + defaultSize⟩⟩,
            [], [], ?_, rfl, ⟨by simp, by simp, by simp⟩,
            ⟨by simp, by simp [Nat.succ_mul]⟩, rfl, ?_⟩
          · simp only [otherBlockToBack, block_start_index]
            rw [found, ok_bind, if_neg full, shorter]
            simp
          · have moved := List.perm_append_singleton first (middle ++ held)
            simpa using moved

end OtherFrontToBack

section OtherBackToFront

theorem other_block_to_front_spec {p : Pair} {middle spare unused held : List BlockId}
    {extent : Nat} {last : BlockId} (opened : OpenBack p.this (middle ++ [last]) spare)
    (receiver : OpenFront p.other unused held extent)
    (bounded : p.this.buffer.length ≤ maxBlocks) (otherBounded : p.other.buffer.length ≤ maxBlocks) :
    ∃ after left room, otherBlockToFront p = .ok after ∧ after.mem = p.mem ∧
      OpenBack after.this middle left ∧ after.this.beginPos = p.this.beginPos ∧
      OpenFront after.other room (last :: held) (extent + defaultSize) ∧
      (after.this.buffer ++ after.other.buffer).Perm (p.this.buffer ++ p.other.buffer) := by
  have index := last_index opened bounded
  have stop := last_block_stop opened bounded
  have spareIff := last_spare opened bounded
  have listed : p.this.buffer = middle ++ last :: spare := by simp [opened.listed]
  have found := block_at_middle middle spare last
  rw [← listed] at found
  rcases List.eq_nil_or_concat unused with rfl | ⟨ahead, temp, rfl⟩
  · have atStart : p.other.beginPos = 0 := by simp [receiver.start]
    have start : ¬p.other.beginPos ≠ 0 := fun ahead => ahead atStart
    have otherListed : p.other.buffer = held := receiver.listed
    have otherStop : p.other.endPos + defaultSize = extent + defaultSize := by
      simp [receiver.stop]
    rcases List.eq_nil_or_concat spare with rfl | ⟨behind, back, rfl⟩
    · have full : ¬SpareBack p.this := by simp [spareIff]
      refine ⟨⟨p.mem, ⟨middle, p.this.beginPos, middle.length * defaultSize⟩,
        ⟨last :: held, p.other.beginPos, p.other.endPos + defaultSize⟩⟩, [], [], ?_, rfl,
        ⟨by simp, rfl⟩, rfl, ⟨rfl, by simp [atStart], by simpa using otherStop⟩, ?_⟩
      · simp only [otherBlockToFront, index]
        rw [found, ok_bind, if_neg start, if_neg full, stop, listed, List.dropLast_concat,
          otherListed]
      · rw [listed, otherListed]
        simp
    · rw [List.concat_eq_append] at *
      have room : SpareBack p.this := by simp [spareIff]
      have size : wsub p.this.buffer.length 1 = (middle ++ last :: behind).length := by
        have small := blocks_fit
        rw [listed] at bounded ⊢
        simp only [List.length_append, List.length_cons, List.length_nil] at *
        rw [wsub_exact (by omega) (by omega)]
        omega
      have shape : p.this.buffer = middle ++ last :: behind ++ [back] := by simp [listed]
      have backAt := block_at_middle (middle ++ last :: behind) [] back
      rw [← size, ← shape] at backAt
      have slots : (p.this.buffer.set middle.length back).dropLast = middle ++ back :: behind := by
        rw [listed, set_middle, ← List.cons_append, ← List.append_assoc, List.dropLast_concat]
      refine ⟨⟨p.mem, ⟨middle ++ back :: behind, p.this.beginPos, middle.length * defaultSize⟩,
        ⟨last :: held, p.other.beginPos, p.other.endPos + defaultSize⟩⟩, back :: behind, [], ?_, rfl,
        ⟨rfl, rfl⟩, rfl, ⟨rfl, by simp [atStart], by simpa using otherStop⟩, ?_⟩
      · simp only [otherBlockToFront, index]
        rw [found, ok_bind, if_neg start, if_pos room, backAt, ok_bind, slots, stop, otherListed]
      · rw [shape, otherListed]
        have swapped := swap_perm middle behind held last back
        simpa using swapped
  · rw [List.concat_eq_append] at *
    have before : p.other.beginPos = (ahead.length + 1) * defaultSize := by simp [receiver.start]
    have start : p.other.beginPos ≠ 0 := by
      rw [before]
      exact Nat.ne_of_gt (Nat.mul_pos (Nat.succ_pos _) block_size_pos)
    have otherListed : p.other.buffer = ahead ++ temp :: held := by simp [receiver.listed]
    have few : ahead.length < maxBlocks := by
      rw [otherListed] at otherBounded
      simp only [List.length_append, List.length_cons] at otherBounded
      omega
    refine ⟨⟨p.mem, ⟨middle ++ temp :: spare, p.this.beginPos, middle.length * defaultSize⟩,
      ⟨ahead ++ last :: held, ahead.length * defaultSize, p.other.endPos⟩⟩, temp :: spare, ahead, ?_,
      rfl, ⟨rfl, rfl⟩, rfl, ⟨rfl, rfl, ?_⟩, ?_⟩
    · simp only [otherBlockToFront, index]
      rw [found, ok_bind, if_pos start, before, wsub_one_index few, otherListed, block_at_middle,
        ok_bind, set_middle, listed, set_middle, wsub_block few, stop]
    · simp only [receiver.stop, List.length_append, List.length_singleton, Nat.succ_mul]
      omega
    · rw [listed, otherListed]
      have swapped := swap_perm middle (spare ++ ahead) held last temp
      simpa using swapped

end OtherBackToFront

end Npoller.BlockMoves
