import Npoller.DirectIo
import Npoller.TransferRules

/-!
What the system-call loops do to a buffer: `fillBuffer` appends what the kernel
delivered, `drainBuffer` removes as many bytes as the kernel accepted. The bytes
it accepted are the removed ones only where every accepting call is made at a
block start.
-/

namespace Npoller.DirectIoSpec

open Outcome SizeT MemContainer IoBuffer IoBufferSpec TransferRules DirectIo Segments

variable {born : Nat}

section Fill

theorem deliver_copies {buffer : List BlockId} {bytes : List Byte} {pos : Nat} {block : BlockId}
    {mem : Mem} (listed : buffer[pos / defaultSize]? = some block)
    (fits : pos % defaultSize + bytes.length ≤ defaultSize) :
    copyIn buffer bytes pos block mem = .ok (deliver block (pos % defaultSize) bytes mem) := by
  induction bytes generalizing pos mem with
  | nil => rfl
  | cons byte bytes ih =>
      have loaded : reload buffer pos block = .ok block := by
        unfold reload
        by_cases boundary : pos % defaultSize = 0
        · rw [if_pos boundary, block_at_listed listed]
        · rw [if_neg boundary]
      rw [copyIn, loaded, ok_bind, deliver]
      cases bytes with
      | nil => rfl
      | cons next bytes =>
          simp only [List.length_cons] at fits
          have offset : (pos + 1) % defaultSize = pos % defaultSize + 1 :=
            mod_add_below (by omega)
          have inside : (pos + 1) % defaultSize ≠ 0 := by omega
          rw [← offset]
          apply ih
          · rw [same_block inside]
            exact listed
          · rw [offset, List.length_cons]
            omega

/-- The buffer while a read loop runs: `Rep`, and room behind `end`. -/
structure Readable (rest : List BlockId) (born : Nat) (before : Buf) (target : Target) : Prop where
  rep : Rep target.buf.cb
  owns : Owns born target.buf.mem (target.buf.cb.buffer ++ rest)
  same : target.buf.mem.cells = before.mem.cells
  holds : content target.buf = content before
  listed : target.buf.cb.buffer[target.buf.cb.endPos / defaultSize]? = some target.block
  inside : target.buf.cb.endPos < target.buf.cb.buffer.length * defaultSize
  room : target.room = defaultSize - target.buf.cb.endPos % defaultSize
  grown : target.buf.cb.buffer.length ≤ before.cb.buffer.length + 1

theorem read_target_spec {s : Buf} {rest : List BlockId} (rep : Rep s.cb)
    (owns : Owns born s.mem (s.cb.buffer ++ rest)) :
    Ends (outOfMemory (s.cb.buffer.length + rest.length)) (readTarget s)
      (Readable rest born s) := by
  have within : s.cb.endPos ≤ s.cb.buffer.length * defaultSize := rep_within rep
  unfold readTarget
  by_cases free : s.cb.endPos < s.cb.buffer.length * defaultSize
  · rw [if_pos free]
    obtain ⟨block, listed, loaded⟩ := block_of_position free
    apply ends_bind_ok loaded
    exact ⟨rep, owns, rfl, rfl, listed, free, rfl, Nat.le_succ _⟩
  · rw [if_neg free]
    -- All blocks are full, and another one comes behind them.
    have full : s.cb.endPos = s.cb.buffer.length * defaultSize := by omega
    have held : (s.cb.buffer ++ rest).length ≤ s.cb.buffer.length + rest.length :=
      Nat.le_of_eq List.length_append
    apply ends_bind (get_owns owns held)
    rintro ⟨block, next⟩ ⟨owned, same⟩
    dsimp only at same
    have moved : (block :: (s.cb.buffer ++ rest)).Perm (s.cb.buffer ++ [block] ++ rest) := by
      simpa using List.perm_middle.symm
    have index : s.cb.endPos / defaultSize = s.cb.buffer.length := by
      rw [full, Nat.mul_div_cancel _ block_size_pos]
    have count : (s.cb.buffer ++ [block]).length = s.cb.endPos / defaultSize + 1 := by
      rw [index, List.length_append, List.length_singleton]
    have inside : s.cb.endPos < (s.cb.buffer ++ [block]).length * defaultSize := by
      have positive := block_size_pos
      rw [List.length_append, List.length_singleton, Nat.succ_mul]
      omega
    refine ⟨?_, owns_perm owned moved, same, ?_, ?_, inside, ?_, Nat.le_of_eq List.length_append⟩
    · rcases rep with ⟨start, stop, _⟩ | filled
      · left
        refine ⟨start, stop, ?_⟩
        rw [count, stop, Nat.zero_div]
      · right
        exact ⟨filled.nonempty, Nat.le_of_lt inside, filled.first, Nat.le_of_eq count⟩
    · simp only [content, same]
      exact window_extend_back s.cb.buffer [block] within
    · simp [index]
    · rw [full, Nat.mul_mod_left, Nat.sub_zero]

theorem received_serves {s : Buf} {rest : List BlockId} {target : Target} {bytes : List Byte}
    (ready : Readable rest born s target) (some_ : bytes ≠ []) (fits : bytes.length ≤ target.room) :
    Serves born rest s (received target bytes) (content s ++ bytes) := by
  obtain ⟨rep, owns, same, holds, listed, inside, room, _⟩ := ready
  have split := Nat.div_add_mod target.buf.cb.endPos defaultSize
  have offset := Nat.mod_lt target.buf.cb.endPos block_size_pos
  have reach : target.buf.cb.endPos + bytes.length ≤ target.buf.cb.buffer.length * defaultSize := by
    have index := (block_index_iff _ _).mpr inside
    have whole := Nat.mul_le_mul_left defaultSize (Nat.succ_le_of_lt index)
    rw [Nat.mul_succ, Nat.mul_comm defaultSize target.buf.cb.buffer.length] at whole
    omega
  have copied := copy_in_spec owns reach (cached_listed listed)
  rw [deliver_copies listed (by omega), ends_ok] at copied
  obtain ⟨owned, frame, filledBytes, outside⟩ := copied
  have positive := List.length_pos_iff.mpr some_
  have compact : target.buf.cb.buffer.length ≤
      (target.buf.cb.endPos + bytes.length) / defaultSize + 1 := by
    have more : target.buf.cb.endPos / defaultSize ≤
        (target.buf.cb.endPos + bytes.length) / defaultSize :=
      Nat.div_le_div_right (Nat.le_add_right _ _)
    rcases rep with ⟨_, _, few⟩ | filled
    · exact Nat.le_trans few (Nat.le_add_left _ _)
    · exact Nat.le_trans filled.compact (Nat.succ_le_succ more)
  have foreign : ∀ block ∈ rest, (received target bytes).mem.cells block = s.mem.cells block := by
    intro block other
    exact (frame block other).trans (congrFun same block)
  rcases rep with vacant | filled
  · have start : (received target bytes).cb.beginPos = 0 := by simp [received, vacant.1]
    have none_ : content s = [] := holds.symm.trans (vacant_content vacant)
    refine ⟨Or.inr ⟨?_, reach, ?_, compact⟩, owned, foreign, ?_⟩
    · rw [start]
      exact Nat.lt_of_lt_of_le positive (Nat.le_add_left _ _)
    · rw [start]
      exact block_size_pos
    · rw [none_, List.nil_append, content, start]
      rw [vacant.2.1] at filledBytes
      simpa [received, vacant.2.1] using filledBytes
  · have start : (received target bytes).cb.beginPos = target.buf.cb.beginPos := by
      have limit := bytes_bounded (owns_buffer_length owns)
      rw [received, if_neg (filled_not_npos filled (owns_buffer_length owns))]
    refine ⟨Or.inr ⟨?_, reach, ?_, compact⟩, owned, foreign, ?_⟩
    · rw [start]
      exact Nat.lt_of_lt_of_le filled.nonempty (Nat.le_add_right _ _)
    · rw [start]
      exact filled.first
    · rw [content, start, ← holds]
      change window defaultSize _ target.buf.cb.buffer _ (target.buf.cb.endPos + bytes.length) = _
      rw [window_append (Nat.le_of_lt filled.nonempty) (Nat.le_add_right _ _) reach, content]
      have kept := outside target.buf.cb.beginPos target.buf.cb.endPos (Or.inl (Nat.le_refl _))
      exact congrArg₂ (· ++ ·) kept filledBytes

theorem readable_serves {s : Buf} {rest : List BlockId} {target : Target}
    (ready : Readable rest born s target) : Serves born rest s target.buf (content s ++ []) := by
  refine ⟨ready.rep, ready.owns, fun block _ => congrFun ready.same block, ?_⟩
  rw [List.append_nil, ready.holds]

theorem received_room {target : Target} {s : Buf} {rest : List BlockId}
    (ready : Readable rest born s target) (first : Byte) (more : List Byte) :
    (first :: more).take target.room ≠ [] ∧
      ((first :: more).take target.room).length ≤ target.room := by
  have offset := Nat.mod_lt target.buf.cb.endPos block_size_pos
  have positive : 0 < target.room := by
    rw [ready.room]
    omega
  constructor
  · intro none_
    have length := congrArg List.length none_
    simp only [List.length_take, List.length_cons, List.length_nil] at length
    omega
  · rw [List.length_take]
    exact Nat.min_le_left _ _

theorem serves_trans {s middle after : Buf} {rest : List BlockId} {left right : List Byte}
    (first : Serves born rest s middle (content s ++ left))
    (second : Serves born rest middle after (content middle ++ right)) :
    Serves born rest s after (content s ++ (left ++ right)) := by
  refine ⟨second.rep, second.owns, ?_, ?_⟩
  · intro block foreign
    rw [second.frame block foreign, first.frame block foreign]
  · rw [second.holds, first.holds, List.append_assoc]

theorem direct_read_loop_serves (results : List ReadResult) (retryTimes : Nat) {s : Buf}
    {rest : List BlockId} (rep : Rep s.cb) (owns : Owns born s.mem (s.cb.buffer ++ rest)) :
    Ends (outOfMemory (s.cb.buffer.length + rest.length + results.length))
      (directReadLoop results retryTimes s)
      (fun done => Serves born rest s done.buf (content s ++ done.delivered)) := by
  induction results generalizing retryTimes s with
  | nil =>
      apply ends_bind (read_target_spec rep owns)
      intro target ready
      exact readable_serves ready
  | cons result results ih =>
      -- Each call finds room in the last block or gets one block more.
      have aimed := ends_mono (read_target_spec rep owns)
        (out_of_memory_mono (Nat.le_add_right _ (result :: results).length)) (fun _ ready => ready)
      have later (target : Target) (ready : Readable rest born s target) :
          target.buf.cb.buffer.length + rest.length + results.length ≤
            s.cb.buffer.length + rest.length + (result :: results).length := by
        have grown := ready.grown
        rw [List.length_cons]
        omega
      cases result with
      | bytes first more =>
          apply ends_bind aimed
          intro target ready
          obtain ⟨some_, fits⟩ := received_room ready first more
          have served := received_serves ready some_ fits
          apply ends_bind (ends_mono (ih retryTimes served.rep served.owns)
            (out_of_memory_mono (later target ready)) (fun _ done => done))
          intro done finished
          exact serves_trans served finished
      | eof =>
          apply ends_bind aimed
          intro target ready
          exact readable_serves ready
      | failed errno =>
          apply ends_bind aimed
          intro target ready
          have served := readable_serves ready
          -- EINTR is tried again until the retries are used up.
          split
          · apply ends_mono (ih (retryTimes + 1) ready.rep ready.owns)
              (out_of_memory_mono (later target ready))
            intro done finished
            exact serves_trans served finished
          · exact served

theorem fill_buffer_serves (results : List ReadResult) {s : Buf} {rest : List BlockId}
    (rep : Rep s.cb) (owns : Owns born s.mem (s.cb.buffer ++ rest)) :
    Ends (outOfMemory (s.cb.buffer.length + rest.length + results.length)) (fillBuffer results s)
      (fun done => Serves born rest s done.buf (content s ++ done.delivered)) := by
  apply ends_bind (direct_read_loop_serves results 0 rep owns)
  intro done served
  have bounded := owns_buffer_length served.owns
  have normalised : ¬(done.buf.cb.beginPos = npos ∧ done.buf.cb.endPos > 0) := by
    rintro ⟨start, filled⟩
    rcases served.rep with vacant | filledRep
    · rw [vacant.2.1] at filled
      exact Nat.lt_irrefl 0 filled
    · exact filled_not_npos filledRep bounded start
  dsimp only
  rw [if_neg normalised]
  exact served

end Fill

section Drain

/-- Where `begin` stands at the calls of one `direct_write` that are accepted. -/
def acceptedAt : List WriteResult → Nat → ControlBlock → List Nat
  | [], _, _ => []
  | result :: rest, retryTimes, cb =>
      if Unsent cb then
        match result with
        | .accepted more => cb.beginPos :: acceptedAt rest retryTimes
            { cb with beginPos := cb.beginPos + min (more + 1) (canWriteBytes cb) }
        | .zero errno | .failed errno =>
            if Retries errno retryTimes then acceptedAt rest (retryTimes + 1) cb else []
      else []

/-- Every accepting call of the loop starts at a block boundary. -/
def BlockStarts (results : List WriteResult) (cb : ControlBlock) : Prop :=
  ∀ pos ∈ acceptedAt results 0 cb, pos % defaultSize = 0

/-- What the write loop leaves alone: a content that may have become empty. -/
structure Sending (cb : ControlBlock) : Prop where
  order : cb.beginPos ≤ cb.endPos
  within : cb.endPos ≤ cb.buffer.length * defaultSize
  few : cb.buffer.length ≤ maxBlocks

variable {cb : ControlBlock}

theorem can_write_bytes_spec (sending : Sending cb) (unsent : Unsent cb) :
    0 < canWriteBytes cb ∧ cb.beginPos + canWriteBytes cb ≤ cb.endPos ∧
      cb.beginPos % defaultSize + canWriteBytes cb ≤ defaultSize := by
  have limit := bytes_bounded sending.few
  have order := sending.order
  have within := sending.within
  have offset := Nat.mod_lt cb.beginPos block_size_pos
  have endOffset := Nat.mod_lt cb.endPos block_size_pos
  have split := Nat.div_add_mod cb.beginPos defaultSize
  have endSplit := Nat.div_add_mod cb.endPos defaultSize
  have different := unsent.2.2
  unfold canWriteBytes
  by_cases same : cb.endPos / defaultSize = cb.beginPos / defaultSize
  · rw [if_pos same, wsub_position sending.few within order]
    rw [same] at endSplit
    omega
  · rw [if_neg same]
    have later : cb.beginPos / defaultSize < cb.endPos / defaultSize := by
      have ordered : cb.beginPos / defaultSize ≤ cb.endPos / defaultSize :=
        Nat.div_le_div_right order
      exact Nat.lt_of_le_of_ne ordered (Ne.symm same)
    have whole := Nat.mul_le_mul_left defaultSize (Nat.succ_le_of_lt later)
    rw [Nat.mul_succ] at whole
    omega

theorem write_request_spec (sending : Sending cb) (unsent : Unsent cb) :
    ∃ block, writeRequest cb = .ok (some ⟨block, canWriteBytes cb⟩) ∧
      cb.buffer[cb.beginPos / defaultSize]? = some block := by
  have inside : cb.beginPos < cb.buffer.length * defaultSize := by
    have order := sending.order
    have within := sending.within
    have different := unsent.2.2
    omega
  obtain ⟨block, listed, loaded⟩ := block_of_position inside
  refine ⟨block, ?_, listed⟩
  rw [writeRequest, if_pos unsent, loaded, ok_bind]

theorem sending_advance (sending : Sending cb) (unsent : Unsent cb) (more : Nat) :
    Sending { cb with beginPos := cb.beginPos + min (more + 1) (canWriteBytes cb) } := by
  obtain ⟨_, reach, _⟩ := can_write_bytes_spec sending unsent
  refine ⟨?_, sending.within, sending.few⟩
  have fewer := Nat.min_le_right (more + 1) (canWriteBytes cb)
  dsimp only
  omega

theorem taken_at_start {mem : Mem} {block : BlockId} {count : Nat} {buffer : List BlockId}
    {pos : Nat} (listed : buffer[pos / defaultSize]? = some block) (start : pos % defaultSize = 0)
    (fits : count ≤ defaultSize) :
    taken mem block count = window defaultSize mem.cells buffer pos (pos + count) := by
  have aligned : pos = pos / defaultSize * defaultSize := by
    have split := Nat.div_add_mod pos defaultSize
    rw [start, Nat.add_zero, Nat.mul_comm] at split
    exact split.symm
  have prefix_ : (Segments.segment defaultSize mem.cells block).take count = taken mem block count := by
    rw [Segments.segment, ← List.map_take, List.take_range, Nat.min_eq_left fits, taken]
  rw [← prefix_, ← window_getElem_self listed, ← aligned]
  exact window_take (Nat.add_le_add_left fits pos)

/-- The outcome of a write loop that found `write_sum = writeSum`. -/
structure Sends (mem : Mem) (starts : List Nat) (cb : ControlBlock) (writeSum : Nat)
    (done : WriteDone) : Prop where
  moved : done.cb = { cb with beginPos := cb.beginPos + done.accepted.length }
  reach : cb.beginPos + done.accepted.length ≤ cb.endPos
  counted : done.writeSum = (writeSum + done.accepted.length) % uintSize
  exact : (∀ pos ∈ starts, pos % defaultSize = 0) → done.accepted =
    window defaultSize mem.cells cb.buffer cb.beginPos (cb.beginPos + done.accepted.length)

theorem sends_nothing {mem : Mem} {starts : List Nat} {writeSum : Nat} (sending : Sending cb)
    (small : writeSum < uintSize) (exit : Exit) :
    Sends mem starts cb writeSum ⟨cb, [], writeSum, exit⟩ :=
  ⟨rfl, sending.order, (Nat.mod_eq_of_lt small).symm, fun _ => (window_empty _ _).symm⟩

theorem sends_more {mem : Mem} {starts : List Nat} {writeSum count : Nat} {block : BlockId}
    {done : WriteDone} (within : cb.endPos ≤ cb.buffer.length * defaultSize)
    (listed : cb.buffer[cb.beginPos / defaultSize]? = some block) (fits : count ≤ defaultSize)
    (rest : Sends mem starts { cb with beginPos := cb.beginPos + count }
      ((writeSum + count) % uintSize) done) :
    Sends mem (cb.beginPos :: starts) cb writeSum
      { done with accepted := taken mem block count ++ done.accepted } := by
  have length : (taken mem block count ++ done.accepted).length = count + done.accepted.length := by
    simp [taken]
  have reach := rest.reach
  dsimp only at reach
  refine ⟨?_, ?_, ?_, ?_⟩
  · rw [rest.moved, length, Nat.add_assoc]
  · rw [length]
    omega
  · rw [length, rest.counted, Nat.mod_add_mod, Nat.add_assoc]
  · intro aligned
    have start := aligned cb.beginPos (List.mem_cons_self ..)
    have later := rest.exact (fun pos member => aligned pos (List.mem_cons_of_mem _ member))
    rw [length, ← Nat.add_assoc, window_append (Nat.le_add_right _ count) (Nat.le_add_right _ _)
      (Nat.le_trans reach within), taken_at_start listed start fits]
    exact congrArg _ later

theorem direct_write_loop_spec {mem : Mem} (results : List WriteResult) (retryTimes writeSum : Nat)
    (sending : Sending cb) (small : writeSum < uintSize) :
    Ends (fun _ => False) (directWriteLoop mem results retryTimes writeSum cb)
      (Sends mem (acceptedAt results retryTimes cb) cb writeSum) := by
  induction results generalizing retryTimes writeSum cb with
  | nil =>
      by_cases unsent : Unsent cb
      · obtain ⟨block, requested, _⟩ := write_request_spec sending unsent
        rw [directWriteLoop, requested]
        exact sends_nothing sending small .again
      · rw [write_loop_sent unsent]
        exact sends_nothing sending small .drained
  | cons result results ih =>
      by_cases unsent : Unsent cb
      · obtain ⟨block, requested, listed⟩ := write_request_spec sending unsent
        obtain ⟨_, reach, fits⟩ := can_write_bytes_spec sending unsent
        cases result with
        | accepted more =>
            -- One `write(2)` takes the rest of a block at most.
            have fewer := Nat.min_le_right (more + 1) (canWriteBytes cb)
            have wrapped : (writeSum + min (more + 1) (canWriteBytes cb)) % uintSize < uintSize :=
              Nat.mod_lt _ (by simp only [uintSize]; omega)
            have short : min (more + 1) (canWriteBytes cb) ≤ defaultSize := by omega
            rw [directWriteLoop, requested, acceptedAt, if_pos unsent]
            apply ends_bind (ih retryTimes _ (sending_advance sending unsent more) wrapped)
            intro done finished
            exact sends_more sending.within listed short finished
        | zero errno | failed errno =>
            rw [directWriteLoop, requested, acceptedAt, if_pos unsent]
            by_cases again : Retries errno retryTimes
            · have later := ih (retryTimes + 1) writeSum sending small
              rw [ok_bind]
              dsimp only
              rw [if_pos again, if_pos again]
              exact later
            · rw [ok_bind]
              dsimp only
              rw [if_neg again]
              exact sends_nothing sending small errno.exit
      · rw [write_loop_sent unsent]
        exact sends_nothing sending small .drained

/-- How many bytes the calls of one `direct_write` are accepted for. -/
def acceptedCount : List WriteResult → Nat → ControlBlock → Nat
  | [], _, _ => 0
  | result :: rest, retryTimes, cb =>
      if Unsent cb then
        match result with
        | .accepted more => min (more + 1) (canWriteBytes cb) + acceptedCount rest retryTimes
            { cb with beginPos := cb.beginPos + min (more + 1) (canWriteBytes cb) }
        | .zero errno | .failed errno =>
            if Retries errno retryTimes then acceptedCount rest (retryTimes + 1) cb else 0
      else 0

theorem accepted_count_sent (results : List WriteResult) (retryTimes : Nat) (sent : ¬Unsent cb) :
    acceptedCount results retryTimes cb = 0 := by
  cases results with
  | nil => rfl
  | cons result results =>
      unfold acceptedCount
      rw [if_neg sent]

theorem write_loop_accepts {mem : Mem} (results : List WriteResult) (retryTimes writeSum : Nat) :
    Ends (fun _ => True) (directWriteLoop mem results retryTimes writeSum cb) (fun done =>
      done.accepted.length = acceptedCount results retryTimes cb) := by
  induction results generalizing retryTimes writeSum cb with
  | nil =>
      rw [directWriteLoop]
      cases writeRequest cb with
      | error fault => exact trivial
      | ok request => cases request <;> exact rfl
  | cons result results ih =>
      by_cases unsent : Unsent cb
      · cases loaded : blockAt cb.buffer (cb.beginPos / defaultSize) with
        | error fault =>
            have request : writeRequest cb = .error fault := by
              rw [writeRequest, if_pos unsent, loaded]
              rfl
            rw [write_loop_fails request]
            exact trivial
        | ok block =>
            have request : writeRequest cb = .ok (some ⟨block, canWriteBytes cb⟩) := by
              rw [writeRequest, if_pos unsent, loaded, ok_bind]
            cases result with
            | accepted more =>
                rw [directWriteLoop, request, acceptedCount, if_pos unsent]
                apply ends_bind (ih retryTimes _)
                intro done counted
                simpa [taken] using counted
            | zero errno | failed errno =>
                rw [directWriteLoop, request, acceptedCount, if_pos unsent, ok_bind]
                dsimp only
                split
                · exact ih (retryTimes + 1) writeSum
                · exact rfl
      · rw [write_loop_sent unsent, accepted_count_sent _ _ unsent]
        exact rfl

theorem drain_buffer_accepts (results : List WriteResult) (s : Buf) :
    Ends (fun _ => True) (drainBuffer results s) (fun done =>
      done.accepted.length = acceptedCount results 0 s.cb) := by
  apply ends_bind (write_loop_accepts results 0 0)
  intro done counted
  dsimp only
  cases shrinkSize _ with
  | error fault => exact trivial
  | ok after => exact counted

structure Drains (born : Nat) (rest : List BlockId) (results : List WriteResult) (s : Buf)
    (done : Drained) : Prop where
  serves : Serves born rest s done.buf ((content s).drop done.accepted.length)
  reach : done.accepted.length ≤ (content s).length
  counted : done.writeSum = done.accepted.length % uintSize
  exact : BlockStarts results s.cb → done.accepted = (content s).take done.accepted.length

theorem drain_vacant {s : Buf} {rest : List BlockId} (results : List WriteResult)
    (vacant : Vacant s.cb) (owns : Owns born s.mem (s.cb.buffer ++ rest)) :
    Ends (fun _ => False) (drainBuffer results s) (Drains born rest results s) := by
  have none_ := vacant_content vacant
  have idle : ¬Unsent s.cb := fun unsent => unsent.1 vacant.1
  have apart : s.cb.beginPos ≠ s.cb.endPos := by
    rw [vacant.1, vacant.2.1]
    simp only [npos]
    omega
  have within : Within s.cb := rep_within (Or.inl vacant)
  apply ends_bind_ok (write_loop_sent idle results 0 0)
  dsimp only
  rw [if_neg apart]
  apply ends_bind (shrink_serves within owns)
  intro after served
  refine ⟨?_, Nat.zero_le _, (Nat.zero_mod _).symm, fun _ => List.take_zero.symm⟩
  exact ⟨served.rep, served.owns, served.frame, served.holds⟩

theorem drain_buffer_spec {s : Buf} {rest : List BlockId} (results : List WriteResult)
    (rep : Rep s.cb) (owns : Owns born s.mem (s.cb.buffer ++ rest)) :
    Ends (fun _ => False) (drainBuffer results s) (Drains born rest results s) := by
  rcases rep with vacant | filled
  · exact drain_vacant results vacant owns
  · have sending : Sending s.cb :=
      ⟨Nat.le_of_lt filled.nonempty, filled.within, owns_buffer_length owns⟩
    have length := content_length filled.within
    apply ends_bind
      (direct_write_loop_spec results 0 0 sending (by simp only [uintSize]; omega))
    intro done sends
    have reach := sends.reach
    have short : s.cb.beginPos + done.accepted.length ≤ s.cb.endPos := reach
    have fewer : done.accepted.length ≤ (content s).length := by omega
    have counted := sends.counted
    rw [Nat.zero_add] at counted
    -- an empty content may still have positions inside the blocks
    have closed : Ends (fun _ => False) (shrinkSize ⟨s.mem,
        if done.cb.beginPos = done.cb.endPos then done.cb.emptied else done.cb⟩)
        (fun after => Serves born rest s after ((content s).drop done.accepted.length)) := by
      rw [sends.moved]
      dsimp only
      by_cases all : s.cb.beginPos + done.accepted.length = s.cb.endPos
      · rw [if_pos all, List.drop_eq_nil_of_le (by omega)]
        have shrunk : Ends (fun _ => False) (shrinkSize ⟨s.mem, ControlBlock.emptied
            { s.cb with beginPos := s.cb.beginPos + done.accepted.length }⟩) _ :=
          shrink_serves (emptied_within _) owns
        apply ends_weaken shrunk
        intro after served
        exact ⟨served.rep, served.owns, served.frame, served.holds.trans (content_emptied _ _)⟩
      · rw [if_neg all]
        have shrunk : Ends (fun _ => False) (shrinkSize ⟨s.mem,
            { s.cb with beginPos := s.cb.beginPos + done.accepted.length }⟩) _ :=
          shrink_serves filled.within owns
        apply ends_weaken shrunk
        intro after served
        refine ⟨served.rep, served.owns, served.frame, served.holds.trans ?_⟩
        exact (window_drop _).symm
    apply ends_bind closed
    intro after served
    refine ⟨served, fewer, counted, ?_⟩
    intro aligned
    rw [content, window_take short]
    exact sends.exact aligned

end Drain

end Npoller.DirectIoSpec
