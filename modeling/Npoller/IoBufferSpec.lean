import Npoller.IoBuffer

/-!
What each push, pop and shrink of one buffer does. `content` is the part of the
concatenated blocks between the two positions, `Rep` the shape every public
operation leaves behind, and `Serves` the contract of one operation: shape,
ownership of the blocks, untouched foreign blocks and the new content. `rest`
stands for the blocks of all other buffers.
-/

namespace Npoller.IoBufferSpec

open Outcome SizeT MemContainer IoBuffer Segments

variable {born : Nat}

def content (s : Buf) : List Byte :=
  window defaultSize s.mem.cells s.cb.buffer s.cb.beginPos s.cb.endPos

/-- `begin = (size_t) -1`, `end = 0`, at most one left-over block. -/
def Vacant (cb : ControlBlock) : Prop :=
  cb.beginPos = npos ∧ cb.endPos = 0 ∧ cb.buffer.length ≤ 1

structure Filled (cb : ControlBlock) : Prop where
  nonempty : cb.beginPos < cb.endPos
  within : cb.endPos ≤ cb.buffer.length * defaultSize
  first : cb.beginPos < defaultSize
  compact : cb.buffer.length ≤ cb.endPos / defaultSize + 1

def Rep (cb : ControlBlock) : Prop := Vacant cb ∨ Filled cb

/-- All that is left of `Rep` in the middle of an operation. -/
def Within (cb : ControlBlock) : Prop := cb.endPos ≤ cb.buffer.length * defaultSize

structure Serves (born : Nat) (rest : List BlockId) (before after : Buf) (bytes : List Byte) : Prop where
  rep : Rep after.cb
  owns : Owns born after.mem (after.cb.buffer ++ rest)
  frame : ∀ block ∈ rest, after.mem.cells block = before.mem.cells block
  holds : content after = bytes

theorem rep_within {cb : ControlBlock} (rep : Rep cb) : Within cb := by
  rcases rep with ⟨_, stop, _⟩ | filled
  · simp [Within, stop]
  · exact filled.within

theorem fresh_rep : Rep ControlBlock.fresh := Or.inl ⟨rfl, rfl, Nat.zero_le 1⟩

theorem owns_buffer_length {mem : Mem} {buffer rest : List BlockId}
    (owns : Owns born mem (buffer ++ rest)) : buffer.length ≤ maxBlocks := by
  have total := owns_length owns
  rw [List.length_append] at total
  omega

/-- What `check` leaves: the control block itself, or the empty form. -/
def normal (cb : ControlBlock) : ControlBlock :=
  if cb.beginPos < cb.endPos then cb else cb.emptied

theorem check_normal {cb : ControlBlock} (within : Within cb)
    (bounded : cb.buffer.length ≤ maxBlocks) : check cb = .ok (normal cb) := by
  unfold Within at within
  unfold check normal
  by_cases held : cb.beginPos < cb.endPos
  · have start : cb.beginPos ≠ npos :=
      position_not_npos bounded (Nat.le_trans (Nat.le_of_lt held) within)
    have kept : ¬(cb.beginPos = npos ∨ cb.endPos = 0 ∨ cb.beginPos ≥ cb.endPos) := by omega
    have fits : ¬wsub cb.endPos cb.beginPos > cb.buffer.length * defaultSize := by
      rw [wsub_position bounded within (Nat.le_of_lt held)]
      omega
    rw [if_neg kept, if_neg fits, if_pos held]
  · rw [if_pos (Or.inr (Or.inr (Nat.le_of_not_lt held))), if_neg held]

theorem emptied_within (cb : ControlBlock) : Within cb.emptied := Nat.zero_le _

theorem content_emptied (mem : Mem) (cb : ControlBlock) : content ⟨mem, cb.emptied⟩ = [] :=
  window_nil_of_le _ (Nat.zero_le _)

theorem content_normal (mem : Mem) (cb : ControlBlock) :
    content ⟨mem, normal cb⟩ = content ⟨mem, cb⟩ := by
  unfold normal
  split
  · rfl
  · rename_i vacant
    rw [content_emptied, content, window_nil_of_le _ (Nat.le_of_not_lt vacant)]

@[simp] theorem normal_buffer (cb : ControlBlock) : (normal cb).buffer = cb.buffer := by
  unfold normal
  split <;> rfl

theorem normal_within {cb : ControlBlock} (within : Within cb) : Within (normal cb) := by
  unfold normal
  split
  · exact within
  · exact emptied_within cb

theorem rep_normal {cb : ControlBlock} (rep : Rep cb) : normal cb = cb := by
  unfold normal
  rcases rep with ⟨start, stop, _⟩ | filled
  · rw [if_neg (by omega)]
    cases cb
    simp_all [ControlBlock.emptied]
  · rw [if_pos filled.nonempty]

theorem content_length {s : Buf} (within : Within s.cb) :
    (content s).length = s.cb.endPos - s.cb.beginPos := window_length within

section Shrink

theorem release_all_owns {blocks rest : List BlockId} {mem : Mem}
    (owns : Owns born mem (blocks ++ rest)) :
    Owns born (releaseAll blocks mem) rest ∧ (releaseAll blocks mem).cells = mem.cells := by
  induction blocks generalizing mem with
  | nil => exact ⟨owns, rfl⟩
  | cons block blocks ih =>
      obtain ⟨after, same⟩ := ih (push_owns owns)
      exact ⟨after, same.trans (push_cells mem block)⟩

/-- One pass of the first loop gives back the front block and moves both
positions, so the bytes between them stay the same. -/
theorem drop_front_spec {buffer rest : List BlockId} {mem : Mem} {b e : Nat}
    (owns : Owns born mem (buffer ++ rest)) (order : b ≤ e)
    (within : e ≤ buffer.length * defaultSize) (bounded : buffer.length ≤ maxBlocks) :
    Ends (fun _ => False) (dropFront buffer b e mem) (fun after =>
      after.cb.beginPos < defaultSize ∧ after.cb.endPos - after.cb.beginPos = e - b ∧
      after.cb.beginPos ≤ after.cb.endPos ∧ Within after.cb ∧
      Owns born after.mem (after.cb.buffer ++ rest) ∧ after.mem.cells = mem.cells ∧
      content after = window defaultSize mem.cells buffer b e) := by
  induction buffer generalizing b e mem with
  | nil =>
      have vacant : e = 0 := by simpa using within
      have start : b = 0 := by omega
      subst vacant start
      simpa [dropFront, Within, content, block_size_pos] using owns
  | cons block buffer ih =>
      have small := position_fits bounded within
      simp only [List.length_cons, Nat.succ_mul] at within bounded
      simp only [dropFront, whole_block_iff]
      split
      · rename_i spare
        rw [wsub_exact spare (Nat.lt_of_le_of_lt order small),
          wsub_exact (Nat.le_trans spare order) small]
        have inner := ih (push_owns owns) (Nat.sub_le_sub_right order defaultSize)
          (by omega) (by omega)
        apply ends_weaken inner
        rintro after ⟨first, span, ordered, inside, owned, same, bytes⟩
        refine ⟨first, by omega, ordered, inside, owned, same.trans (push_cells mem block), ?_⟩
        rw [bytes, push_cells, window_drop_front spare order]
      · rename_i first
        exact ⟨Nat.lt_of_not_le first, rfl, order, by simpa only [Within, List.length_cons,
          Nat.succ_mul] using within, owns, rfl, rfl⟩

theorem drop_back_spec {count e : Nat} {buffer rest : List BlockId} {mem : Mem} (b : Nat)
    (owns : Owns born mem (buffer ++ rest)) (within : e ≤ buffer.length * defaultSize)
    (enough : buffer.length ≤ count) :
    (dropBack e count buffer mem).1.length ≤ e / defaultSize + 1 ∧
      e ≤ (dropBack e count buffer mem).1.length * defaultSize ∧
      Owns born (dropBack e count buffer mem).2 ((dropBack e count buffer mem).1 ++ rest) ∧
      (dropBack e count buffer mem).2.cells = mem.cells ∧
      window defaultSize mem.cells (dropBack e count buffer mem).1 b e =
        window defaultSize mem.cells buffer b e := by
  induction count generalizing buffer mem with
  | zero =>
      have vacant : buffer.length = 0 := by omega
      exact ⟨by simp [dropBack, vacant], within, owns, rfl, rfl⟩
  | succ count ih =>
      simp only [dropBack]
      split
      · rename_i spare
        rcases List.eq_nil_or_concat buffer with vacant | ⟨front, last, split⟩
        · subst vacant
          simp at spare
        · subst split
          simp only [List.concat_eq_append] at *
          rw [List.getLast?_concat, List.dropLast_concat]
          simp only [List.length_append, List.length_singleton] at spare enough
          have moved : (front ++ [last] ++ rest).Perm (last :: (front ++ rest)) := by simp
          have inside : e ≤ front.length * defaultSize :=
            Nat.le_of_lt ((block_index_iff e front.length).mp (by omega))
          obtain ⟨compact, held, owned, same, bytes⟩ :=
            ih (push_owns (owns_perm owns moved)) inside (by omega)
          refine ⟨compact, held, owned, same.trans (push_cells mem last), ?_⟩
          rw [push_cells] at bytes
          rw [bytes, window_extend_back front [last] inside]
      · rename_i compact
        exact ⟨Nat.le_of_not_lt compact, within, owns, rfl, rfl⟩

theorem shrink_serves {s : Buf} {rest : List BlockId} (within : Within s.cb)
    (owns : Owns born s.mem (s.cb.buffer ++ rest)) :
    Ends (fun _ => False) (shrinkSize s) (fun after => Serves born rest s after (content s)) := by
  have bounded := owns_buffer_length owns
  apply ends_bind_ok (check_normal within bounded)
  by_cases held : s.cb.beginPos < s.cb.endPos
  · have start : s.cb.beginPos ≠ npos :=
      position_not_npos bounded (Nat.le_trans (Nat.le_of_lt held) within)
    rw [normal, if_pos held, if_neg start]
    apply ends_bind (drop_front_spec owns (Nat.le_of_lt held) within bounded)
    rintro front ⟨first, span, ordered, inside, owned, same, bytes⟩
    obtain ⟨compact, kept, ownedBack, sameBack, bytesBack⟩ :=
      drop_back_spec front.cb.beginPos owned inside (Nat.le_refl _)
    refine ⟨Or.inr ⟨?_, kept, first, compact⟩, ownedBack, ?_, ?_⟩
    · change front.cb.beginPos < front.cb.endPos
      omega
    · intro block _
      rw [sameBack, same]
    · rw [content, sameBack, bytesBack]
      exact bytes
  · -- nothing is held: `check` has just written the empty form
    rw [normal, if_neg held, if_pos (show s.cb.emptied.beginPos = npos from rfl)]
    obtain ⟨owned, same⟩ := release_all_owns owns
    refine ⟨Or.inl ⟨rfl, rfl, Nat.zero_le 1⟩, owned, ?_, ?_⟩
    · intro block _
      exact congrFun same block
    · have before : content s = [] := window_nil_of_le _ (Nat.le_of_not_lt held)
      rw [before]
      exact window_nil_of_le _ (Nat.zero_le _)

theorem close_serves {mem : Mem} {cb : ControlBlock} {rest : List BlockId} (within : Within cb)
    (owns : Owns born mem (cb.buffer ++ rest)) :
    Ends (fun _ => False) (check cb >>= fun checked => shrinkSize ⟨mem, checked⟩)
      (fun after => Serves born rest ⟨mem, cb⟩ after (content ⟨mem, cb⟩)) := by
  apply ends_bind_ok (check_normal within (owns_buffer_length owns))
  have shrunk := shrink_serves (s := ⟨mem, normal cb⟩) (normal_within within)
    (by simpa using owns)
  apply ends_weaken shrunk
  intro after served
  exact ⟨served.rep, served.owns, served.frame, served.holds.trans (content_normal mem cb)⟩

end Shrink

section Pops

theorem vacant_content {s : Buf} (vacant : Vacant s.cb) : content s = [] := by
  rw [content, vacant.2.1]
  exact window_nil_of_le _ (Nat.zero_le _)

theorem filled_content {s : Buf} (filled : Filled s.cb) : content s ≠ [] := by
  intro none_
  have length := content_length filled.within
  have held := filled.nonempty
  rw [none_, List.length_nil] at length
  omega

theorem filled_not_npos {cb : ControlBlock} (filled : Filled cb)
    (bounded : cb.buffer.length ≤ maxBlocks) : cb.beginPos ≠ npos :=
  position_not_npos bounded (Nat.le_trans (Nat.le_of_lt filled.nonempty) filled.within)

theorem filled_difference {cb : ControlBlock} (filled : Filled cb)
    (bounded : cb.buffer.length ≤ maxBlocks) :
    wsub cb.endPos cb.beginPos = cb.endPos - cb.beginPos :=
  wsub_position bounded filled.within (Nat.le_of_lt filled.nonempty)

theorem pop_front_serves {s : Buf} {rest : List BlockId} (size : Nat) (rep : Rep s.cb)
    (owns : Owns born s.mem (s.cb.buffer ++ rest)) :
    Ends (fun _ => False) (popFrontN size s)
      (fun after => Serves born rest s after ((content s).drop size)) := by
  have bounded := owns_buffer_length owns
  have limit := bytes_bounded bounded
  apply ends_bind_ok (check_normal (rep_within rep) bounded)
  rw [rep_normal rep]
  rcases rep with vacant | filled
  · rw [if_pos vacant.1]
    refine ⟨Or.inl vacant, owns, fun _ _ => rfl, ?_⟩
    change content s = _
    rw [vacant_content vacant, List.drop_nil]
  · have within := filled.within
    have held := filled.nonempty
    rw [if_neg (filled_not_npos filled bounded),
      filled_difference filled bounded]
    by_cases more : size > s.cb.endPos - s.cb.beginPos
    · rw [if_pos more]
      have shrunk := shrink_serves (s := ⟨s.mem, s.cb.emptied⟩) (emptied_within s.cb) owns
      apply ends_weaken shrunk
      rintro after served
      refine ⟨served.rep, served.owns, served.frame, ?_⟩
      rw [served.holds, content_emptied, List.drop_eq_nil_of_le]
      rw [content_length within]
      omega
    · rw [if_neg more, wadd_position bounded (by omega)]
      have shrunk := shrink_serves
        (s := ⟨s.mem, { s.cb with beginPos := s.cb.beginPos + size }⟩) within owns
      apply ends_weaken shrunk
      rintro after served
      refine ⟨served.rep, served.owns, served.frame, ?_⟩
      rw [served.holds, content, content, window_drop]

theorem pop_back_serves {s : Buf} {rest : List BlockId} (size : Nat) (rep : Rep s.cb)
    (owns : Owns born s.mem (s.cb.buffer ++ rest)) :
    Ends (fun _ => False) (popBackN size s) (fun after =>
      Serves born rest s after ((content s).take ((content s).length - size))) := by
  have bounded := owns_buffer_length owns
  have limit := bytes_bounded bounded
  apply ends_bind_ok (check_normal (rep_within rep) bounded)
  rw [rep_normal rep]
  rcases rep with vacant | filled
  · rw [if_pos vacant.1]
    refine ⟨Or.inl vacant, owns, fun _ _ => rfl, ?_⟩
    change content s = _
    rw [vacant_content vacant, List.take_nil]
  · have within := filled.within
    have held := filled.nonempty
    rw [if_neg (filled_not_npos filled bounded), content_length within,
      filled_difference filled bounded]
    by_cases more : size > s.cb.endPos - s.cb.beginPos
    · rw [if_pos more]
      have closed := close_serves (emptied_within s.cb) owns
      apply ends_weaken closed
      rintro after served
      refine ⟨served.rep, served.owns, served.frame, ?_⟩
      rw [served.holds, content_emptied, Nat.sub_eq_zero_of_le (by omega), List.take_zero]
    · rw [if_neg more, wsub_position bounded within (by omega)]
      have inside : Within { s.cb with endPos := s.cb.endPos - size } :=
        Nat.le_trans (Nat.sub_le _ _) within
      have closed := close_serves inside owns
      apply ends_weaken closed
      rintro after served
      refine ⟨served.rep, served.owns, served.frame, ?_⟩
      have short : s.cb.beginPos + (s.cb.endPos - s.cb.beginPos - size) ≤ s.cb.endPos := by omega
      have stop : s.cb.beginPos + (s.cb.endPos - s.cb.beginPos - size) = s.cb.endPos - size := by
        omega
      rw [served.holds, content, content, window_take short, stop]

end Pops

section CopyLoops

/-- The pointer in hand belongs to `pos`, unless `pos` starts a block. -/
def Cached (buffer : List BlockId) (pos : Nat) (block : BlockId) : Prop :=
  pos % defaultSize ≠ 0 → buffer[pos / defaultSize]? = some block

theorem block_at_listed {buffer : List BlockId} {index : Nat} {block : BlockId}
    (listed : buffer[index]? = some block) : blockAt buffer index = .ok block := by
  rw [blockAt, listed]

theorem block_of_position {buffer : List BlockId} {pos : Nat}
    (within : pos < buffer.length * defaultSize) :
    ∃ block, buffer[pos / defaultSize]? = some block ∧
      blockAt buffer (pos / defaultSize) = .ok block := by
  obtain ⟨block, listed⟩ := listed_position within
  exact ⟨block, listed, block_at_listed listed⟩

theorem reload_listed {buffer : List BlockId} {pos : Nat} {block : BlockId}
    (within : pos < buffer.length * defaultSize) (cached : Cached buffer pos block) :
    ∃ found, reload buffer pos block = .ok found ∧ buffer[pos / defaultSize]? = some found := by
  unfold reload
  by_cases boundary : pos % defaultSize = 0
  · obtain ⟨found, listed, at_⟩ := block_of_position within
    exact ⟨found, by rw [if_pos boundary, at_], listed⟩
  · exact ⟨block, by rw [if_neg boundary], cached boundary⟩

theorem same_block {pos : Nat} (inside : (pos + 1) % defaultSize ≠ 0) :
    (pos + 1) / defaultSize = pos / defaultSize := by
  rw [Nat.succ_div, if_neg (fun divides => inside (Nat.mod_eq_zero_of_dvd divides)), Nat.add_zero]

theorem cached_next {buffer : List BlockId} {pos : Nat} {block : BlockId}
    (listed : buffer[pos / defaultSize]? = some block) : Cached buffer (pos + 1) block := by
  intro inside
  rw [same_block inside, listed]

theorem copy_in_spec {buffer rest : List BlockId} {src : List Byte} {pos : Nat}
    {block : BlockId} {mem : Mem} (owns : Owns born mem (buffer ++ rest))
    (within : pos + src.length ≤ buffer.length * defaultSize) (cached : Cached buffer pos block) :
    Ends (fun _ => False) (copyIn buffer src pos block mem) (fun after =>
      Owns born after (buffer ++ rest) ∧ (∀ other ∈ rest, after.cells other = mem.cells other) ∧
      window defaultSize after.cells buffer pos (pos + src.length) = src ∧
      ∀ start stop, stop ≤ pos ∨ pos + src.length ≤ start →
        window defaultSize after.cells buffer start stop =
          window defaultSize mem.cells buffer start stop) := by
  induction src generalizing pos block mem with
  | nil => exact ⟨owns, fun _ _ => rfl, window_empty buffer pos, fun _ _ _ => rfl⟩
  | cons byte src ih =>
      simp only [List.length_cons] at within ⊢
      obtain ⟨found, loaded, listed⟩ := reload_listed (by omega) cached
      have unique := owns_left_unique owns
      have member : found ∈ buffer := List.mem_of_getElem? listed
      apply ends_bind_ok loaded
      have written := (owns_write found (pos % defaultSize) byte).mpr owns
      apply ends_weaken (ih written (by omega) (cached_next listed))
      rintro after ⟨owned, frame, filled, outside⟩
      refine ⟨owned, ?_, ?_, ?_⟩
      · intro other foreign
        rw [frame other foreign]
        exact write_frame owns member (pos % defaultSize) byte other foreign
      · have head : window defaultSize (mem.write found (pos % defaultSize) byte).cells buffer
            pos (pos + 1) = window defaultSize mem.cells buffer pos pos ++ [byte] :=
          window_store_back block_size_pos unique listed (Nat.le_refl pos) (by omega) byte
        have kept := outside pos (pos + 1) (Or.inl (Nat.le_refl _))
        have total : pos + (src.length + 1) = pos + 1 + src.length := by omega
        rw [total, window_append (Nat.le_succ pos) (by omega) (by omega), kept, head, filled,
          window_empty]
        rfl
      · intro start stop apart
        rw [outside start stop (by omega)]
        exact window_store_outside block_size_pos unique listed (by omega) byte

theorem copy_out_spec {buffer : List BlockId} {mem : Mem} {count pos : Nat} {block : BlockId}
    (within : pos + count ≤ buffer.length * defaultSize) (cached : Cached buffer pos block) :
    copyOut buffer mem count pos block =
      .ok (window defaultSize mem.cells buffer pos (pos + count)) := by
  induction count generalizing pos block with
  | zero => rw [copyOut, Nat.add_zero, window_empty]
  | succ count ih =>
      obtain ⟨found, loaded, listed⟩ := reload_listed (by omega) cached
      have tail := ih (by omega) (cached_next listed)
      have total : pos + (count + 1) = pos + 1 + count := by omega
      rw [copyOut, loaded, total, window_head block_size_pos (by omega) (by omega) listed]
      change (copyOut buffer mem count (pos + 1) found >>= _) = _
      rw [tail]
      rfl

end CopyLoops

section CopyingPops

theorem close_pop_serves {mem : Mem} {cb : ControlBlock} {rest : List BlockId} (within : Within cb)
    (owns : Owns born mem (cb.buffer ++ rest)) :
    Ends (fun _ => False) (closePop cb mem)
      (fun after => Serves born rest ⟨mem, cb⟩ after (content ⟨mem, cb⟩)) := by
  unfold closePop
  by_cases vacant : cb.beginPos ≥ cb.endPos
  · have none_ : content ⟨mem, cb⟩ = [] := window_nil_of_le _ vacant
    have shrunk : Ends (fun _ => False) (shrinkSize ⟨mem, cb.emptied⟩) _ :=
      shrink_serves (emptied_within cb) owns
    rw [if_pos vacant, none_]
    rw [content_emptied] at shrunk
    apply ends_weaken shrunk
    intro after served
    exact ⟨served.rep, served.owns, served.frame, served.holds⟩
  · rw [if_neg vacant]
    exact shrink_serves within owns

theorem copy_out_past {buffer : List BlockId} {mem : Mem} {count pos : Nat} {block : BlockId}
    (starts : pos ≤ buffer.length * defaultSize)
    (passes : buffer.length * defaultSize < pos + count) :
    copyOut buffer mem count pos block = .error .outOfRange := by
  induction count generalizing pos block with
  | zero => omega
  | succ count ih =>
      rw [copyOut]
      by_cases last : pos = buffer.length * defaultSize
      · have boundary : pos % defaultSize = 0 := by rw [last, Nat.mul_mod_left]
        have index : pos / defaultSize = buffer.length := by
          rw [last, Nat.mul_div_cancel _ block_size_pos]
        rw [reload, if_pos boundary, index, blockAt, List.getElem?_eq_none (Nat.le_refl _)]
        rfl
      · obtain loaded | ⟨found, loaded⟩ : reload buffer pos block = .error .outOfRange ∨
            ∃ found, reload buffer pos block = .ok found := by
          unfold reload blockAt
          split
          · split
            · exact Or.inr ⟨_, rfl⟩
            · exact Or.inl rfl
          · exact Or.inr ⟨_, rfl⟩
        · rw [loaded]
          rfl
        · have tail : copyOut buffer mem count (pos + 1) found = .error .outOfRange :=
            ih (by omega) (by omega)
          rw [loaded, ok_bind, tail]
          rfl

theorem copy_out_wraps {buffer : List BlockId} {mem : Mem} {size pos : Nat} {block : BlockId}
    (few : buffer.length ≤ maxBlocks) (inside : pos < buffer.length * defaultSize)
    (wraps : wordSize ≤ pos + size) : copyOut buffer mem size pos block = .error .outOfRange := by
  have limit := bytes_bounded few
  apply copy_out_past (Nat.le_of_lt inside)
  simp only [wordSize] at wraps
  omega

theorem pop_front_into_copies {s : Buf} {rest : List BlockId} {size count : Nat}
    (filled : Filled s.cb) (owns : Owns born s.mem (s.cb.buffer ++ rest))
    (chosen : (if wsub (wadd s.cb.beginPos size) 1 ≥ s.cb.endPos then
      wsub s.cb.endPos s.cb.beginPos else size) = count)
    (inside : s.cb.beginPos + count ≤ s.cb.endPos) :
    Ends (fun _ => False) (popFrontInto size s) (fun popped => popped.count = count ∧
      popped.dest = (content s).take popped.count ∧
      Serves born rest s popped.buf ((content s).drop popped.count)) := by
  have bounded := owns_buffer_length owns
  have held := filled.nonempty
  have within := filled.within
  have start := filled_not_npos filled bounded
  unfold popFrontInto
  rw [if_neg (fun empty => start empty.1), chosen]
  obtain ⟨block, listed, loaded⟩ := block_of_position (Nat.lt_of_lt_of_le held within)
  apply ends_bind_ok loaded
  apply ends_bind_ok (copy_out_spec (Nat.le_trans inside within) (fun _ => listed))
  rw [wadd_position bounded (Nat.le_trans inside within)]
  have closed : Ends (fun _ => False)
      (closePop { s.cb with beginPos := s.cb.beginPos + count } s.mem) _ :=
    close_pop_serves within owns
  apply ends_bind closed
  intro after served
  refine ⟨rfl, ?_, served.rep, served.owns, served.frame, ?_⟩
  · exact (window_take inside).symm
  · rw [served.holds]
    exact (window_drop count).symm

theorem pop_front_into_vacant {s : Buf} {rest : List BlockId} (size : Nat) (vacant : Vacant s.cb)
    (owns : Owns born s.mem (s.cb.buffer ++ rest)) :
    Ends (fun _ => False) (popFrontInto size s) (fun popped => popped.count = 0 ∧
      popped.dest = (content s).take popped.count ∧
      Serves born rest s popped.buf ((content s).drop popped.count)) := by
  have none_ := vacant_content vacant
  unfold popFrontInto
  rw [if_pos (by rw [vacant.1, vacant.2.1]; exact ⟨rfl, Nat.zero_le _⟩), none_]
  refine ⟨rfl, rfl, Or.inl ⟨rfl, rfl, vacant.2.2⟩, owns, fun _ _ => rfl, ?_⟩
  exact content_emptied _ _

/-- How many bytes the copying pop from the front takes: for the size 0 at the start of
the deque all of them, since `begin + size - 1` wraps there. -/
def frontCount (size : Nat) (s : Buf) : Nat :=
  if size = 0 ∧ s.cb.beginPos = 0 then (content s).length else min size (content s).length

theorem front_count_vacant {s : Buf} (size : Nat) (vacant : Vacant s.cb) : frontCount size s = 0 := by
  rw [frontCount, vacant_content vacant, List.length_nil, Nat.min_zero, ite_self]

theorem front_count_chosen {s : Buf} {size : Nat} (filled : Filled s.cb)
    (bounded : s.cb.buffer.length ≤ maxBlocks) (small : s.cb.beginPos + size < wordSize) :
    (if wsub (wadd s.cb.beginPos size) 1 ≥ s.cb.endPos then wsub s.cb.endPos s.cb.beginPos
      else size) = frontCount size s := by
  have held := filled.nonempty
  have inside := position_fits bounded filled.within
  have length : (content s).length = s.cb.endPos - s.cb.beginPos := content_length filled.within
  rw [wadd_exact small, filled_difference filled bounded, frontCount, length]
  by_cases none_ : s.cb.beginPos + size = 0
  · have wraps : wsub (s.cb.beginPos + size) 1 ≥ s.cb.endPos := by
      rw [none_]
      simp only [wsub, wordSize] at inside ⊢
      omega
    rw [if_pos wraps, if_pos (by omega)]
  · rw [wsub_exact (by omega) small, if_neg (show ¬(size = 0 ∧ s.cb.beginPos = 0) by omega)]
    split <;> omega

theorem pop_front_into_serves {s : Buf} {rest : List BlockId} (size : Nat) (rep : Rep s.cb)
    (owns : Owns born s.mem (s.cb.buffer ++ rest))
    (fits : s.cb.beginPos ≠ npos → s.cb.beginPos + size < wordSize) :
    Ends (fun _ => False) (popFrontInto size s) (fun popped => popped.count = frontCount size s ∧
      popped.dest = (content s).take popped.count ∧
      Serves born rest s popped.buf ((content s).drop popped.count)) := by
  have bounded := owns_buffer_length owns
  cases rep with
  | inl vacant =>
      rw [front_count_vacant size vacant]
      exact pop_front_into_vacant size vacant owns
  | inr filled =>
      have held := filled.nonempty
      have small := fits (filled_not_npos filled bounded)
      have length : (content s).length = s.cb.endPos - s.cb.beginPos := content_length filled.within
      refine pop_front_into_copies filled owns (front_count_chosen filled bounded small) ?_
      rw [frontCount, length]
      split <;> omega

theorem pop_front_into_ends {s : Buf} {rest : List BlockId} (size : Nat) (rep : Rep s.cb)
    (owns : Owns born s.mem (s.cb.buffer ++ rest)) :
    Ends (fun fault => fault = .outOfRange) (popFrontInto size s) (fun popped =>
      popped.dest = (content s).take popped.count ∧
      Serves born rest s popped.buf ((content s).drop popped.count)) := by
  have bounded := owns_buffer_length owns
  by_cases fits : s.cb.beginPos ≠ npos → s.cb.beginPos + size < wordSize
  · exact ends_total (ends_weaken (pop_front_into_serves size rep owns fits)
      (fun _ copied => copied.2))
  · obtain ⟨start, wraps⟩ := Classical.not_imp.mp fits
    cases rep with
    | inl vacant => exact absurd vacant.1 start
    | inr filled =>
        have held := filled.nonempty
        have within := filled.within
        by_cases clamped : wsub (wadd s.cb.beginPos size) 1 ≥ s.cb.endPos
        · refine ends_total (ends_weaken (pop_front_into_copies filled owns (if_pos clamped) ?_)
            (fun _ copied => copied.2))
          rw [filled_difference filled bounded]
          omega
        · have inside := Nat.lt_of_lt_of_le held within
          obtain ⟨block, listed, loaded⟩ := block_of_position inside
          unfold popFrontInto
          rw [if_neg (fun empty => start empty.1), if_neg clamped]
          apply ends_bind_ok loaded
          rw [copy_out_wraps bounded inside (Nat.le_of_not_lt wraps)]
          exact rfl

/-- How many bytes the copying pop from the back takes. It adds `begin` to an
offset that counts from the start of the deque, and takes so many bytes less. -/
def backCount (size : Nat) (s : Buf) : Nat :=
  if size > (content s).length then (content s).length else size - s.cb.beginPos

theorem pop_back_into_copies {s : Buf} {rest : List BlockId} {count : Nat} (filled : Filled s.cb)
    (owns : Owns born s.mem (s.cb.buffer ++ rest)) (some_ : 0 < count)
    (inside : count ≤ s.cb.endPos - s.cb.beginPos) :
    Ends (fun _ => False) (do
        let block ← blockAt s.cb.buffer ((s.cb.endPos - count) / defaultSize)
        let dest ← copyOut s.cb.buffer s.mem count (s.cb.endPos - count) block
        let after ← closePop { s.cb with endPos := wsub s.cb.endPos count } s.mem
        .ok (⟨dest, count, after⟩ : Popped))
      (fun popped => popped.count = count ∧
        popped.dest = (content s).drop ((content s).length - count) ∧
        Serves born rest s popped.buf ((content s).take ((content s).length - count))) := by
  have bounded := owns_buffer_length owns
  have limit := bytes_bounded bounded
  have within := filled.within
  have reach : s.cb.endPos - count < s.cb.buffer.length * defaultSize := by omega
  have stop : s.cb.endPos - count + count = s.cb.endPos := by omega
  obtain ⟨block, listed, loaded⟩ := block_of_position reach
  apply ends_bind_ok loaded
  apply ends_bind_ok (copy_out_spec (by rw [stop]; exact within) (fun _ => listed))
  rw [wsub_position bounded within (by omega), stop, content_length within]
  have closed : Ends (fun _ => False)
      (closePop { s.cb with endPos := s.cb.endPos - count } s.mem) _ :=
    close_pop_serves (Nat.le_trans (Nat.sub_le _ _) within) owns
  apply ends_bind closed
  intro after served
  have short : s.cb.beginPos + (s.cb.endPos - s.cb.beginPos - count) ≤ s.cb.endPos := by omega
  have cut : s.cb.beginPos + (s.cb.endPos - s.cb.beginPos - count) = s.cb.endPos - count := by
    omega
  refine ⟨rfl, ?_, served.rep, served.owns, served.frame, ?_⟩
  · rw [content, window_drop, cut]
  · rw [served.holds, content, content, window_take short, cut]

theorem pop_back_into_serves {s : Buf} {rest : List BlockId} (size : Nat) (rep : Rep s.cb)
    (owns : Owns born s.mem (s.cb.buffer ++ rest)) :
    Ends (fun _ => False) (popBackInto size s) (fun popped => popped.count = backCount size s ∧
      popped.dest = (content s).drop ((content s).length - popped.count) ∧
      Serves born rest s popped.buf ((content s).take ((content s).length - popped.count))) := by
  have bounded := owns_buffer_length owns
  have limit := bytes_bounded bounded
  unfold popBackInto
  cases rep with
  | inl vacant =>
      have none_ := vacant_content vacant
      rw [if_pos (by rw [vacant.1, vacant.2.1]; exact ⟨rfl, Nat.zero_le _⟩), none_]
      refine ⟨?_, rfl, Or.inl ⟨rfl, rfl, vacant.2.2⟩, owns, fun _ _ => rfl, content_emptied _ _⟩
      change 0 = backCount size s
      rw [backCount, none_, List.length_nil]
      split
      · rfl
      · omega
  | inr filled =>
      have held := filled.nonempty
      have within := filled.within
      have start := filled_not_npos filled bounded
      have positive := block_size_pos
      have small : s.cb.endPos + s.cb.endPos < wordSize := by
        simp only [wordSize]
        omega
      have length : (content s).length = s.cb.endPos - s.cb.beginPos := content_length within
      rw [if_neg (fun empty => start empty.1), filled_difference filled bounded]
      dsimp only
      by_cases more : size > s.cb.endPos - s.cb.beginPos
      · -- The offset is 0, and all bytes are taken.
        have fewer : ¬ s.cb.endPos - s.cb.beginPos ≥ size := Nat.not_le_of_lt more
        have all : s.cb.endPos - (s.cb.endPos - s.cb.beginPos) = s.cb.beginPos := by omega
        have copied := pop_back_into_copies filled owns (by omega) (Nat.le_refl _)
        have count : backCount size s = s.cb.endPos - s.cb.beginPos := by
          rw [backCount, length, if_pos more]
        rw [all] at copied
        rw [if_neg fewer, if_neg fewer, if_neg (by omega), wadd_exact (by omega),
          wadd_exact (by omega), wsub_exact (by omega) (by omega), Nat.add_zero, if_neg (by omega)]
        apply ends_weaken copied
        rintro popped ⟨same, took, served⟩
        rw [same]
        exact ⟨count.symm, took, served⟩
      · have enough : s.cb.endPos - s.cb.beginPos ≥ size := Nat.le_of_not_lt more
        have count : backCount size s = size - s.cb.beginPos := by
          rw [backCount, length, if_neg more]
        rw [if_pos enough, if_pos enough, wsub_exact (by omega) (by omega)]
        by_cases skips : s.cb.endPos - size ≥ s.cb.endPos - s.cb.beginPos
        · rw [if_pos skips]
          refine ⟨?_, ?_, Or.inr filled, owns, fun _ _ => rfl, ?_⟩
          · change 0 = backCount size s
            rw [count]
            omega
          · rw [Nat.sub_zero, List.drop_length]
          · rw [Nat.sub_zero, List.take_length]
        · -- `begin` beyond the offset leaves `size - begin` bytes up to `end`.
          have offset : s.cb.beginPos + (s.cb.endPos - size) =
              s.cb.endPos - (size - s.cb.beginPos) := by omega
          have copied := pop_back_into_copies filled owns
            (show 0 < size - s.cb.beginPos by omega) (by omega)
          have clamped : (if wsub (wadd (s.cb.endPos - (size - s.cb.beginPos)) size) 1 ≥ s.cb.endPos
              then wsub s.cb.endPos (s.cb.endPos - (size - s.cb.beginPos)) else size) =
              size - s.cb.beginPos := by
            rw [wadd_exact (by omega), wsub_exact (by omega) (by omega),
              wsub_exact (by omega) (by omega)]
            split
            · omega
            · omega
          rw [if_neg skips, wadd_exact (by omega), offset, clamped]
          apply ends_weaken copied
          rintro popped ⟨same, took, served⟩
          rw [same]
          exact ⟨count.symm, took, served⟩

end CopyingPops

section Pushes

/-- The allocation loop of `push_back_n`: blocks are added behind until `need`
bytes fit, and never more than one beyond them. -/
theorem grow_back_spec {need : Nat} {buffer rest : List BlockId} {mem : Mem}
    (owns : Owns born mem (buffer ++ rest)) (compact : buffer.length ≤ need / defaultSize + 1) :
    Ends (outOfMemory (need / defaultSize + rest.length)) (growBack need buffer mem) (fun grown =>
      (∃ more, grown.1 = buffer ++ more) ∧ need ≤ grown.1.length * defaultSize ∧
      grown.1.length ≤ need / defaultSize + 1 ∧ Owns born grown.2 (grown.1 ++ rest) ∧
      grown.2.cells = mem.cells) := by
  induction buffer, mem using growBack.induct need with
  | case1 buffer mem short ih =>
      rw [growBack, if_pos short]
      have few : buffer.length ≤ need / defaultSize :=
        (Nat.le_div_iff_mul_le block_size_pos).mpr (Nat.le_of_lt short)
      have enoughHeld : (buffer ++ rest).length ≤ need / defaultSize + rest.length := by
        rw [List.length_append]
        exact Nat.add_le_add_right few _
      apply ends_bind (get_owns owns enoughHeld)
      rintro ⟨block, next⟩ ⟨owned, same⟩
      have moved : (block :: (buffer ++ rest)).Perm (buffer ++ [block] ++ rest) := by
        simpa using List.perm_middle.symm
      have inner := ih ⟨block, next⟩ (owns_perm owned moved)
        (by simp only [List.length_append, List.length_singleton]; omega)
      apply ends_weaken inner
      rintro grown ⟨⟨more, listed⟩, enough, fewer, ownedAfter, sameAfter⟩
      refine ⟨⟨block :: more, ?_⟩, enough, fewer, ownedAfter, sameAfter.trans same⟩
      rw [listed, List.append_assoc]
      rfl
  | case2 buffer mem enough =>
      rw [growBack, if_neg enough]
      exact ⟨⟨[], by simp⟩, Nat.le_of_not_lt enough, compact, owns, rfl⟩

theorem grow_front_spec {need : Nat} {buffer rest : List BlockId} {mem : Mem}
    (owns : Owns born mem (buffer ++ rest)) (compact : buffer.length ≤ need / defaultSize + 1) :
    Ends (outOfMemory (need / defaultSize + rest.length)) (growFront need buffer mem)
      (fun grown => need ≤ grown.1.length * defaultSize ∧
      grown.1.length ≤ need / defaultSize + 1 ∧ Owns born grown.2 (grown.1 ++ rest) ∧
      grown.2.cells = mem.cells) := by
  induction buffer, mem using growFront.induct need with
  | case1 buffer mem short ih =>
      rw [growFront, if_pos short]
      have few : buffer.length ≤ need / defaultSize :=
        (Nat.le_div_iff_mul_le block_size_pos).mpr (Nat.le_of_lt short)
      have enoughHeld : (buffer ++ rest).length ≤ need / defaultSize + rest.length := by
        rw [List.length_append]
        exact Nat.add_le_add_right few _
      apply ends_bind (get_owns owns enoughHeld)
      rintro ⟨block, next⟩ ⟨owned, same⟩
      have inner := ih ⟨block, next⟩ owned (by simp only [List.length_cons]; omega)
      apply ends_weaken inner
      rintro grown ⟨enough, fewer, ownedAfter, sameAfter⟩
      exact ⟨enough, fewer, ownedAfter, sameAfter.trans same⟩
  | case2 buffer mem enough =>
      rw [growFront, if_neg enough]
      exact ⟨Nat.le_of_not_lt enough, compact, owns, rfl⟩

/-- The loop of `push_front_n` on a filled buffer: every block put in front
moves both positions by its size, so the content keeps its place. -/
theorem room_in_front_spec {size span : Nat} {cb : ControlBlock} {rest : List BlockId} {mem : Mem}
    (owns : Owns born mem (cb.buffer ++ rest)) (near : cb.beginPos < size + defaultSize)
    (held : cb.beginPos < cb.endPos) (spans : cb.endPos = cb.beginPos + span) (within : Within cb)
    (compact : cb.buffer.length ≤ cb.endPos / defaultSize + 1) :
    Ends (outOfMemory ((span + size) / defaultSize + 1 + rest.length)) (roomInFront size cb mem)
      (fun room => (size ≤ room.cb.beginPos ∧ room.cb.beginPos < size + defaultSize) ∧
      room.cb.beginPos < room.cb.endPos ∧ Within room.cb ∧
      room.cb.buffer.length ≤ room.cb.endPos / defaultSize + 1 ∧
      Owns born room.mem (room.cb.buffer ++ rest) ∧ room.mem.cells = mem.cells ∧
      content room = content ⟨mem, cb⟩) := by
  induction cb, mem using roomInFront.induct size with
  | case1 cb mem short ih =>
      rw [roomInFront, if_pos short]
      have few : cb.endPos / defaultSize ≤ (span + size) / defaultSize :=
        Nat.div_le_div_right (by omega)
      have enoughHeld : (cb.buffer ++ rest).length ≤
          (span + size) / defaultSize + 1 + rest.length := by
        rw [List.length_append]
        omega
      apply ends_bind (get_owns owns enoughHeld)
      rintro ⟨block, next⟩ ⟨owned, same⟩
      dsimp only at owned same ih ⊢
      have inside : cb.endPos + defaultSize ≤ (block :: cb.buffer).length * defaultSize := by
        rw [List.length_cons, Nat.succ_mul]
        exact Nat.add_le_add_right within defaultSize
      have fewer : (block :: cb.buffer).length ≤ (cb.endPos + defaultSize) / defaultSize + 1 := by
        rw [List.length_cons, Nat.add_div_right _ block_size_pos]
        exact Nat.succ_le_succ compact
      apply ends_weaken
        (ih ⟨block, next⟩ owned (by omega) (by omega) (by omega) inside fewer)
      rintro room ⟨close, order, withinAfter, compactAfter, ownedAfter, sameAfter, bytes⟩
      refine ⟨close, order, withinAfter, compactAfter, ownedAfter, sameAfter.trans same, ?_⟩
      rw [bytes, content, content, same, window_extend_front]
  | case2 cb mem enough =>
      rw [roomInFront, if_neg enough]
      exact ⟨⟨Nat.le_of_not_lt enough, near⟩, held, within, compact, owns, rfl, rfl⟩

/-- The blocks a push of `count` bytes can need, all other buffers' included. -/
def pushNeeds (s : Buf) (rest : List BlockId) (count : Nat) : Nat :=
  ((content s).length + count) / defaultSize + 1 + rest.length

def sourceBytes : Option Source → List Byte
  | none => []
  | some src => src.bytes

theorem append_bytes {mem : Mem} {cb : ControlBlock} {rest : List BlockId} (src : Source)
    (some_ : src.bytes.length ≠ 0) (owns : Owns born mem (cb.buffer ++ rest))
    (order : cb.beginPos ≤ cb.endPos) (within : Within cb) (first : cb.beginPos < defaultSize)
    (compact : cb.buffer.length ≤ cb.endPos / defaultSize + 1) :
    Ends (outOfMemory (pushNeeds ⟨mem, cb⟩ rest src.bytes.length)) (do
        let grown ← growBack (wadd src.bytes.length cb.endPos) cb.buffer mem
        let block ← blockAt grown.1 (cb.endPos / defaultSize)
        let after ← copyIn grown.1 src.bytes cb.endPos block grown.2
        .ok (Buf.mk after ⟨grown.1, cb.beginPos, wadd cb.endPos src.bytes.length⟩))
      (fun after => Serves born rest ⟨mem, cb⟩ after (content ⟨mem, cb⟩ ++ src.bytes)) := by
  have limit := bytes_bounded (owns_buffer_length owns)
  have bounded := src.bounded
  unfold Within at within
  rw [wadd_exact (by simp only [wordSize]; omega), wadd_exact (by simp only [wordSize]; omega)]
  have room : cb.buffer.length ≤ (src.bytes.length + cb.endPos) / defaultSize + 1 :=
    Nat.le_trans compact (Nat.succ_le_succ (Nat.div_le_div_right (Nat.le_add_left _ _)))
  have needs : (src.bytes.length + cb.endPos) / defaultSize + rest.length ≤
      pushNeeds ⟨mem, cb⟩ rest src.bytes.length := by
    have span : src.bytes.length + cb.endPos ≤
        (content ⟨mem, cb⟩).length + src.bytes.length + defaultSize := by
      have length := content_length (s := ⟨mem, cb⟩) within
      dsimp only at length
      omega
    have blocks := Nat.div_le_div_right (c := defaultSize) span
    rw [Nat.add_div_right _ block_size_pos] at blocks
    exact Nat.add_le_add_right blocks _
  apply ends_bind (ends_mono (grow_back_spec owns room) (out_of_memory_mono needs)
    (fun _ post => post))
  rintro ⟨buffer, grown⟩ ⟨⟨more, listed⟩, enough, fewer, owned, same⟩
  dsimp only at listed enough fewer owned same ⊢
  have inside : cb.endPos < buffer.length * defaultSize := by omega
  obtain ⟨block, found, loaded⟩ := block_of_position inside
  apply ends_bind_ok loaded
  apply ends_bind (ends_total (copy_in_spec owned (by omega) (fun _ => found)))
  rintro after ⟨ownedAfter, frame, filled, outside⟩
  refine ⟨Or.inr ⟨?_, ?_, first, ?_⟩, ownedAfter, ?_, ?_⟩
  · change cb.beginPos < cb.endPos + src.bytes.length
    omega
  · change cb.endPos + src.bytes.length ≤ buffer.length * defaultSize
    omega
  · change buffer.length ≤ (cb.endPos + src.bytes.length) / defaultSize + 1
    rwa [Nat.add_comm cb.endPos]
  · intro other foreign
    rw [frame other foreign, same]
  · -- the old bytes lie before the copied positions, in the blocks that were there
    change window defaultSize after.cells buffer cb.beginPos (cb.endPos + src.bytes.length) = _
    rw [window_append order (Nat.le_add_right _ _) (by omega), filled,
      outside _ _ (Or.inl (Nat.le_refl _)), same, listed, window_extend_back _ _ within]
    rfl

theorem push_back_serves {s : Buf} {rest : List BlockId} (src : Option Source) (rep : Rep s.cb)
    (owns : Owns born s.mem (s.cb.buffer ++ rest)) :
    Ends (outOfMemory (pushNeeds s rest (sourceBytes src).length)) (pushBackN src s)
      (fun after => Serves born rest s after (content s ++ sourceBytes src)) := by
  have bounded := owns_buffer_length owns
  apply ends_bind_ok (check_normal (rep_within rep) bounded)
  rw [rep_normal rep]
  cases src with
  | none => exact ⟨rep, owns, fun _ _ => rfl, (List.append_nil _).symm⟩
  | some src =>
      dsimp only
      by_cases none_ : src.bytes.length = 0
      · have vacant : src.bytes = [] := List.eq_nil_of_length_eq_zero none_
        rw [if_pos none_]
        exact ⟨rep, owns, fun _ _ => rfl, by rw [sourceBytes, vacant, List.append_nil]⟩
      · rw [if_neg none_]
        rcases rep with vacant | filled
        · rw [if_pos vacant.1, vacant_content vacant]
          have appended := @append_bytes _ s.mem { s.cb with beginPos := 0, endPos := 0 } rest src
            none_ owns (Nat.le_refl 0) (Nat.zero_le _) block_size_pos (by simpa using vacant.2.2)
          have start : content ⟨s.mem, { s.cb with beginPos := 0, endPos := 0 }⟩ = [] :=
            window_empty _ 0
          rw [start] at appended
          apply ends_mono appended
          · have needs : pushNeeds ⟨s.mem, { s.cb with beginPos := 0, endPos := 0 }⟩ rest
                src.bytes.length = pushNeeds s rest src.bytes.length := by
              rw [pushNeeds, pushNeeds, start, vacant_content vacant]
            rw [needs]
            exact fun _ thrown => thrown
          · intro after served
            exact ⟨served.rep, served.owns, served.frame, served.holds⟩
        · rw [if_neg (filled_not_npos filled bounded)]
          exact append_bytes src none_ owns (Nat.le_of_lt filled.nonempty) filled.within
            filled.first filled.compact

/-- The state of `push_front_n` before its copy: `count` bytes are free from
`begin` on, and the old content follows them. -/
structure Roomed (born : Nat) (rest : List BlockId) (before room : Buf) (count : Nat) : Prop where
  first : room.cb.beginPos < defaultSize
  within : Within room.cb
  order : room.cb.beginPos + count ≤ room.cb.endPos
  compact : room.cb.buffer.length ≤ room.cb.endPos / defaultSize + 1
  owns : Owns born room.mem (room.cb.buffer ++ rest)
  same : room.mem.cells = before.mem.cells
  behind : window defaultSize room.mem.cells room.cb.buffer (room.cb.beginPos + count)
    room.cb.endPos = content before

theorem prepend_bytes {before room : Buf} {rest : List BlockId} (src : Source)
    (some_ : src.bytes.length ≠ 0) (roomed : Roomed born rest before room src.bytes.length) :
    Ends (fun _ => False) (do
        let block ← blockAt room.cb.buffer (room.cb.beginPos / defaultSize)
        let mem ← copyIn room.cb.buffer src.bytes room.cb.beginPos block room.mem
        .ok { room with mem })
      (fun after => Serves born rest before after (src.bytes ++ content before)) := by
  have within : room.cb.endPos ≤ room.cb.buffer.length * defaultSize := roomed.within
  have order := roomed.order
  have inside : room.cb.beginPos < room.cb.buffer.length * defaultSize := by omega
  obtain ⟨block, found, loaded⟩ := block_of_position inside
  apply ends_bind_ok loaded
  apply ends_bind (copy_in_spec roomed.owns (by omega) (fun _ => found))
  rintro after ⟨owned, frame, filled, outside⟩
  refine ⟨Or.inr ⟨?_, within, roomed.first, roomed.compact⟩, owned, ?_, ?_⟩
  · change room.cb.beginPos < room.cb.endPos
    omega
  · intro other foreign
    rw [frame other foreign, roomed.same]
  · change window defaultSize after.cells room.cb.buffer room.cb.beginPos room.cb.endPos = _
    rw [window_append (Nat.le_add_right _ _) order within, filled,
      outside _ _ (Or.inr (Nat.le_refl _)), roomed.behind]

theorem make_room_vacant {s : Buf} {rest : List BlockId} {count : Nat} (vacant : Vacant s.cb)
    (fits : count < wordSize) (owns : Owns born s.mem (s.cb.buffer ++ rest)) :
    Ends (outOfMemory (pushNeeds s rest count)) (makeRoom count s.cb s.mem) (fun room => Roomed born rest s room count) := by
  have few : s.cb.buffer.length ≤ count / defaultSize + 1 :=
    Nat.le_trans vacant.2.2 (Nat.le_add_left 1 _)
  have stop : wadd 0 count = count := (wadd_exact (by omega)).trans (Nat.zero_add _)
  rw [makeRoom, if_pos vacant.1, stop]
  have needs : count / defaultSize + rest.length ≤ pushNeeds s rest count := by
    have blocks : count / defaultSize ≤ ((content s).length + count) / defaultSize :=
      Nat.div_le_div_right (Nat.le_add_left _ _)
    unfold pushNeeds
    omega
  apply ends_bind (ends_mono (grow_front_spec owns few) (out_of_memory_mono needs)
    (fun _ post => post))
  rintro grown ⟨enough, fewer, owned, same⟩
  refine ⟨block_size_pos, enough, Nat.le_of_eq (Nat.zero_add _), fewer, owned, same, ?_⟩
  rw [vacant_content vacant]
  exact window_nil_of_le _ (Nat.le_of_eq (Nat.zero_add _).symm)

theorem make_room_filled {s : Buf} {rest : List BlockId} {count : Nat} (filled : Filled s.cb)
    (owns : Owns born s.mem (s.cb.buffer ++ rest)) :
    Ends (outOfMemory (pushNeeds s rest count)) (makeRoom count s.cb s.mem) (fun room => Roomed born rest s room count) := by
  have near : s.cb.beginPos < count + defaultSize :=
    Nat.lt_of_lt_of_le filled.first (Nat.le_add_left _ _)
  rw [makeRoom, if_neg (filled_not_npos filled (owns_buffer_length owns))]
  have span : s.cb.endPos = s.cb.beginPos + (content s).length := by
    rw [content_length filled.within, Nat.add_sub_of_le (Nat.le_of_lt filled.nonempty)]
  apply ends_bind
    (room_in_front_spec owns near filled.nonempty span filled.within filled.compact)
  rintro room ⟨⟨enough, close⟩, held, within, fewer, owned, same, bytes⟩
  have inside : room.cb.endPos ≤ room.cb.buffer.length * defaultSize := within
  rw [wsub_position (owns_buffer_length owned) (by omega) enough]
  refine ⟨?_, within, ?_, fewer, owned, same, ?_⟩
  · change room.cb.beginPos - count < defaultSize
    omega
  · change room.cb.beginPos - count + count ≤ room.cb.endPos
    omega
  · change window defaultSize room.mem.cells room.cb.buffer (room.cb.beginPos - count + count)
      room.cb.endPos = _
    rw [Nat.sub_add_cancel enough]
    exact bytes

theorem push_front_serves {s : Buf} {rest : List BlockId} (src : Option Source) (rep : Rep s.cb)
    (owns : Owns born s.mem (s.cb.buffer ++ rest)) :
    Ends (outOfMemory (pushNeeds s rest (sourceBytes src).length)) (pushFrontN src s)
      (fun after => Serves born rest s after (sourceBytes src ++ content s)) := by
  have bounded := owns_buffer_length owns
  cases src with
  | none => exact ⟨rep, owns, fun _ _ => rfl, rfl⟩
  | some src =>
      unfold pushFrontN
      dsimp only
      by_cases none_ : src.bytes.length = 0
      · have vacant : src.bytes = [] := List.eq_nil_of_length_eq_zero none_
        rw [if_pos none_]
        exact ⟨rep, owns, fun _ _ => rfl, by rw [sourceBytes, vacant]; rfl⟩
      · rw [if_neg none_]
        apply ends_bind_ok (check_normal (rep_within rep) bounded)
        rw [rep_normal rep]
        have fits : src.bytes.length < wordSize :=
          Nat.lt_trans src.bounded (by simp only [wordSize]; omega)
        have roomed : Ends (outOfMemory (pushNeeds s rest src.bytes.length))
            (makeRoom src.bytes.length s.cb s.mem) (fun room => Roomed born rest s room src.bytes.length) := by
          rcases rep with vacant | filled
          · exact make_room_vacant vacant fits owns
          · exact make_room_filled filled owns
        apply ends_bind roomed
        intro room ready
        exact ends_total (prepend_bytes src none_ ready)

end Pushes

section Reads

theorem size_content {s : Buf} (rep : Rep s.cb) (bounded : s.cb.buffer.length ≤ maxBlocks) :
    size s.cb = (content s).length := by
  have limit := bytes_bounded bounded
  unfold size
  rcases rep with vacant | filled
  · rw [if_pos (Or.inl vacant.1), vacant_content vacant, List.length_nil]
  · have held := filled.nonempty
    have within := filled.within
    have start := filled_not_npos filled bounded
    rw [if_neg (by omega), content_length within,
      filled_difference filled bounded]

theorem get_byte_content {s : Buf} (n : Nat) (rep : Rep s.cb)
    (bounded : s.cb.buffer.length ≤ maxBlocks) :
    getByte n s = match (content s)[n]? with
      | some byte => .ok byte
      | none => .error (.logicError "index out of bounds!") := by
  have limit := bytes_bounded bounded
  unfold getByte
  rcases rep with vacant | filled
  · rw [if_pos (Or.inr vacant.1), vacant_content vacant, List.getElem?_nil]
  · have held := filled.nonempty
    have within := filled.within
    have start := filled_not_npos filled bounded
    rw [filled_difference filled bounded]
    by_cases inside : n < s.cb.endPos - s.cb.beginPos
    · have before : s.cb.beginPos + n < s.cb.endPos := by omega
      obtain ⟨block, listed, loaded⟩ := block_of_position (Nat.lt_of_lt_of_le before within)
      have read : (window defaultSize s.mem.cells s.cb.buffer s.cb.beginPos s.cb.endPos)[n]? =
          some (s.mem.cells block ((s.cb.beginPos + n) % defaultSize)) :=
        window_getElem? block_size_pos before listed
      rw [if_neg (by omega), wadd_position bounded (by omega), loaded, content, read]
      rfl
    · rw [if_pos (Or.inl (Nat.le_of_not_lt inside)), List.getElem?_eq_none]
      rw [content_length within]
      omega

end Reads

end Npoller.IoBufferSpec
