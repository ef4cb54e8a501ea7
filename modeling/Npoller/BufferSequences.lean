import Npoller.ReadCalls

/-!
What the buffers over one pool are to their users: sequences of bytes that do not
know of each other. Each operation of a run changes the sequences of the buffers it
names and no other one, although all of them keep their bytes in blocks of one pool.
-/

namespace Npoller.BufferSequences

open Outcome SizeT MemContainer IoBuffer IoBufferSpec IoBufferTransfer TransferRules SelfTransfer
  PairTransfer DirectIo DirectIoSpec BufferWorld BufferCalls ReadCalls StepSystem Segments

variable {k : Nat} {born : Nat} {w : World k} {i j : Fin k}

def contents (w : World k) (i : Fin k) : List Byte := content (w.buf i)

def others (w : World k) (i : Fin k) : List BlockId :=
  ((List.finRange k).erase i).flatMap (fun j => (w.buffers j).buffer)

def othersBut (w : World k) (i j : Fin k) : List BlockId :=
  (((List.finRange k).erase i).erase j).flatMap (fun name => (w.buffers name).buffer)

/-- What an operation does to the sequences. A copying pop may take another count than
it is asked for; `direct_read` and `direct_write` move what their calls deliver or
have accepted. -/
def Effect (w : World k) (after : Fin k → List Byte) : BufferOp k → Prop
  | .pushBack i src => after = Function.update (contents w) i (contents w i ++ sourceBytes src)
  | .pushFront i src => after = Function.update (contents w) i (sourceBytes src ++ contents w i)
  | .popFront i size => after = Function.update (contents w) i ((contents w i).drop size)
  | .popBack i size => after = Function.update (contents w) i
      ((contents w i).take ((contents w i).length - size))
  | .popFrontInto i size => after = Function.update (contents w) i
      ((contents w i).drop (frontCount size (w.buf i)))
  | .popBackInto i size => after = Function.update (contents w) i
      ((contents w i).take ((contents w i).length - backCount size (w.buf i)))
  | .shrink _ => after = contents w
  | .frontToBack i j n =>
      if i = j then after = Function.update (contents w) i (turnedLeft n (contents w i))
      else after = Function.update (Function.update (contents w) i ((contents w i).drop n)) j
        (contents w j ++ (contents w i).take n)
  | .backToFront i j n =>
      if i = j then after = Function.update (contents w) i (turnedRight n (contents w i))
      else after = Function.update
        (Function.update (contents w) i ((contents w i).take ((contents w i).length - n))) j
        ((contents w i).drop ((contents w i).length - n) ++ contents w j)
  | .fill i results => after = Function.update (contents w) i
      (contents w i ++ (readCalls results 0 (w.buf i)).flatMap ReadCall.bytes)
  | .drain i results => after = Function.update (contents w) i
      ((contents w i).drop (acceptedCount results 0 (w.buffers i)))

/-- The blocks that are taken when an operation finds no memory: a push and a
`direct_read` get theirs from the pool, a transfer always from `new`. -/
def needs (w : World k) : BufferOp k → Nat
  | .pushBack i src | .pushFront i src =>
      pushNeeds (w.buf i) (others w i) (sourceBytes src).length
  | .frontToBack _ _ _ => w.mem.live
  | .backToFront _ _ _ => w.mem.live + 1
  | .fill _ results => w.blocks.length + results.length
  | _ => 0

section Frames

theorem content_same {mem : Mem} {before : World k} (same : ∀ block ∈ (before.buffers j).buffer,
    mem.cells block = before.mem.cells block) :
    content ⟨mem, before.buffers j⟩ = contents before j := window_congr same _ _

theorem mem_others {block : BlockId} (apart : j ≠ i) (listed : block ∈ (w.buffers j).buffer) :
    block ∈ others w i := by
  refine List.mem_flatMap.mpr ⟨j, ?_, listed⟩
  exact (List.mem_erase_of_ne apart).mpr (List.mem_finRange j)

theorem mem_others_but {block : BlockId} {name : Fin k} (first : name ≠ i) (second : name ≠ j)
    (listed : block ∈ (w.buffers name).buffer) : block ∈ othersBut w i j := by
  refine List.mem_flatMap.mpr ⟨name, ?_, listed⟩
  rw [List.mem_erase_of_ne second, List.mem_erase_of_ne first]
  exact List.mem_finRange name

theorem owns_buf_split (sound : Sound born w) :
    Owns born (w.buf i).mem ((w.buf i).cb.buffer ++ others w i) := owns_split i sound.owns

theorem owns_pair_split (apart : i ≠ j) (owns : Owns born w.mem w.blocks) :
    Owns born w.mem ((w.buffers i).buffer ++ ((w.buffers j).buffer ++ othersBut w i j)) := by
  have member : j ∈ (List.finRange k).erase i :=
    (List.mem_erase_of_ne (Ne.symm apart)).mpr (List.mem_finRange j)
  exact owns_perm (owns_split i owns) (List.Perm.append_left _ (buffers_split w.buffers _ member))

theorem serves_contents {after : Buf} {bytes : List Byte}
    (served : Serves born (others w i) (w.buf i) after bytes) :
    contents (w.set i after) = Function.update (contents w) i bytes := by
  funext name
  by_cases same : name = i
  · subst same
    rw [Function.update_self, ← served.holds]
    simp [contents, World.buf, World.set]
  · rw [Function.update_of_ne same]
    have kept : content ⟨after.mem, w.buffers name⟩ = contents w name :=
      content_same (fun block listed => served.frame block (mem_others same listed))
    simpa [contents, World.buf, World.set, same] using kept

theorem pair_serves_contents {after : Pair} {left held : List Byte} (apart : i ≠ j)
    (served : PairServes born (othersBut w i j) w.mem after left held) :
    contents ((w.set i ⟨after.mem, after.this⟩).set j ⟨after.mem, after.other⟩) =
      Function.update (Function.update (contents w) i left) j held := by
  funext name
  by_cases other : name = j
  · subst other
    rw [Function.update_self, ← served.otherHolds]
    simp [contents, World.buf, World.set]
  · rw [Function.update_of_ne other]
    by_cases same : name = i
    · subst same
      rw [Function.update_self, ← served.thisHolds]
      simp [contents, World.buf, World.set, other]
    · rw [Function.update_of_ne same]
      have kept : content ⟨after.mem, w.buffers name⟩ = contents w name :=
        content_same (fun block listed => served.frame block (mem_others_but same other listed))
      simpa [contents, World.buf, World.set, other, same] using kept

theorem on_effect {allowed : Fault → Prop} {op : Buf → Except Fault Buf}
    {post : World k → Prop}
    (serves : Ends allowed (op (w.buf i)) (fun after => ∃ bytes,
      Serves born (others w i) (w.buf i) after bytes ∧
        ∀ next, contents next = Function.update (contents w) i bytes → post next)) :
    Ends allowed (w.on i op) post := by
  apply ends_bind serves
  rintro after ⟨bytes, served, holds⟩
  exact holds _ (serves_contents served)

theorem pair_effect {allowed : Fault → Prop} {op : Pair → Except Fault Pair} {left held : List Byte} (apart : i ≠ j)
    (serves : Ends allowed (op ⟨w.mem, w.buffers i, w.buffers j⟩) (fun after =>
      PairServes born (othersBut w i j) w.mem after left held)) :
    Ends allowed (op ⟨w.mem, w.buffers i, w.buffers j⟩ >>= fun after =>
      .ok ((w.set i ⟨after.mem, after.this⟩).set j ⟨after.mem, after.other⟩))
      (fun after => contents after =
        Function.update (Function.update (contents w) i left) j held) := by
  apply ends_bind serves
  intro after served
  exact pair_serves_contents apart served

end Frames

section Operations

theorem front_to_back_effect (apart : i ≠ j) (n : Nat) (sound : Sound born w) :
    Ends (outOfMemory w.mem.live) (popFrontToOtherBackN i j n w) (fun after => contents after =
      Function.update (Function.update (contents w) i ((contents w i).drop n)) j
        (contents w j ++ (contents w i).take n)) := by
  rw [popFrontToOtherBackN, if_neg apart]
  exact pair_effect apart (other_pop_front_to_back_serves n (sound.rep i) (sound.rep j)
    (owns_pair_split apart sound.owns))

theorem back_to_front_effect (apart : i ≠ j) (n : Nat) (sound : Sound born w) :
    Ends (outOfMemory (w.mem.live + 1)) (popBackToOtherFrontN i j n w) (fun after => contents after =
      Function.update
        (Function.update (contents w) i ((contents w i).take ((contents w i).length - n))) j
        ((contents w i).drop ((contents w i).length - n) ++ contents w j)) := by
  rw [popBackToOtherFrontN, if_neg apart]
  exact pair_effect apart (other_pop_back_to_front_serves n (sound.rep i) (sound.rep j)
    (owns_pair_split apart sound.owns))

theorem run_effect (op : BufferOp k) (sound : Sound born w) (admissible : op.Admissible w) :
    Ends (outOfMemory (needs w op)) (op.run w) (fun after => Effect w (contents after) op) := by
  have rep := sound.rep
  have owns := fun i => owns_buf_split (i := i) sound
  cases op with
  | pushBack i src =>
      apply on_effect
      exact ends_weaken (push_back_serves src (rep i) (owns i))
        (fun _ served => ⟨_, served, fun _ moved => moved⟩)
  | pushFront i src =>
      apply on_effect
      exact ends_weaken (push_front_serves src (rep i) (owns i))
        (fun _ served => ⟨_, served, fun _ moved => moved⟩)
  | popFront i size =>
      apply on_effect
      exact ends_total (ends_weaken (pop_front_serves size (rep i) (owns i))
        (fun _ served => ⟨_, served, fun _ moved => moved⟩))
  | popBack i size =>
      apply on_effect
      exact ends_total (ends_weaken (pop_back_serves size (rep i) (owns i))
        (fun _ served => ⟨_, served, fun _ moved => moved⟩))
  | popFrontInto i size =>
      rw [BufferOp.run]
      apply on_effect
      apply ends_map
      exact ends_total (ends_weaken (pop_front_into_serves size (rep i) (owns i) admissible)
        (fun _ served => ⟨_, served.1 ▸ served.2.2, fun _ moved => moved⟩))
  | popBackInto i size =>
      rw [BufferOp.run]
      apply on_effect
      apply ends_map
      exact ends_total (ends_weaken (pop_back_into_serves size (rep i) (owns i))
        (fun _ served => ⟨_, served.1 ▸ served.2.2, fun _ moved => moved⟩))
  | shrink i =>
      have within : Within (w.buf i).cb := rep_within (rep i)
      apply on_effect
      exact ends_total (ends_weaken (shrink_serves within (owns i))
        (fun _ served => ⟨_, served, fun _ moved => moved.trans (Function.update_eq_self _ _)⟩))
  | frontToBack i j n =>
      by_cases same : i = j
      · subst same
        rw [BufferOp.run, popFrontToOtherBackN, if_pos rfl]
        apply on_effect
        exact ends_weaken (self_pop_front_to_back_serves n (rep i) (owns i))
          (fun _ served => ⟨_, served, fun _ moved => by rw [Effect, if_pos rfl]; exact moved⟩)
      · exact ends_weaken (front_to_back_effect same n sound)
          (fun _ moved => by rw [Effect, if_neg same]; exact moved)
  | backToFront i j n =>
      by_cases same : i = j
      · subst same
        rw [BufferOp.run, popBackToOtherFrontN, if_pos rfl]
        apply on_effect
        exact ends_mono (self_pop_back_to_front_serves n (rep i) (owns i))
          (out_of_memory_mono (Nat.le_succ _))
          (fun _ served => ⟨_, served, fun _ moved => by rw [Effect, if_pos rfl]; exact moved⟩)
      · exact ends_weaken (back_to_front_effect same n sound)
          (fun _ moved => by rw [Effect, if_neg same]; exact moved)
  | fill i results =>
      rw [BufferOp.run, needs, blocks_length w i]
      apply on_effect
      apply ends_map
      exact ends_weaken (fill_buffer_delivers results (rep i) (owns i))
        (fun _ served => ⟨_, served, fun _ moved => moved⟩)
  | drain i results =>
      rw [BufferOp.run]
      apply on_effect
      apply ends_map
      have drained := ends_and (drain_buffer_spec results (rep i) (owns i))
        (drain_buffer_accepts results (w.buf i))
      apply ends_total
      apply ends_weaken drained
      rintro done ⟨drains, counted⟩
      exact ⟨_, counted ▸ drains.serves, fun _ moved => moved⟩

def touched : BufferOp k → List (Fin k)
  | .pushBack i _ | .pushFront i _ | .popFront i _ | .popBack i _ | .popFrontInto i _
  | .popBackInto i _ | .fill i _ | .drain i _ => [i]
  | .shrink _ => []
  | .frontToBack i j _ | .backToFront i j _ => [i, j]

theorem effect_aside {after : Fin k → List Byte} {op : BufferOp k}
    (effect : Effect w after op) {name : Fin k} (aside : name ∉ touched op) :
    after name = contents w name := by
  cases op with
  | shrink => exact congrFun effect name
  | frontToBack i j n | backToFront i j n =>
      simp only [touched, List.mem_cons, List.not_mem_nil, or_false, not_or] at aside
      rw [Effect] at effect
      split at effect
      · rw [effect, Function.update_of_ne aside.1]
      · rw [effect, Function.update_of_ne aside.2, Function.update_of_ne aside.1]
  | _ =>
      simp only [touched, List.mem_singleton] at aside
      rw [Effect] at effect
      rw [effect, Function.update_of_ne aside]

/-- Any number of buffers over one pool refine as many sequences: in every state that
calls of any kind reach, each buffer is read as its sequence, and each operation does
to the sequences what its effect says, or finds no memory where as many blocks as there
can be are taken. -/
theorem buffers_refine_sequences (reached : Reachable (callSystem k) w) :
    (∀ i, size (w.buffers i) = (contents w i).length ∧
      (∀ n, (inside : n < (contents w i).length) →
        getByte n (w.buf i) = .ok (contents w i)[n]) ∧
      ∀ n, (contents w i).length ≤ n →
        getByte n (w.buf i) = .error (.logicError "index out of bounds!")) ∧
    ∀ op : BufferOp k, op.Admissible w → Ends (outOfMemory (needs w op)) (op.run w)
      (fun after => Effect w (contents after) op ∧
        ∀ name, name ∉ touched op → contents after name = contents w name) := by
  have sound := calls_sound reached
  constructor
  · intro i
    have bounded := owns_buffer_length (owns_buf_split (i := i) sound)
    refine ⟨size_content (sound.rep i) bounded, ?_, ?_⟩
    · intro n inside
      have listed : (content (w.buf i))[n]? = some (contents w i)[n] :=
        List.getElem?_eq_getElem inside
      rw [get_byte_content n (sound.rep i) bounded, listed]
    · intro n outside
      have beyond : (content (w.buf i))[n]? = none := List.getElem?_eq_none outside
      rw [get_byte_content n (sound.rep i) bounded, beyond]
  · intro op admissible
    apply ends_weaken (run_effect op sound admissible)
    intro after effect
    exact ⟨effect, fun _ aside => effect_aside effect aside⟩

theorem buffers_refine_sequences_sample :
    (∀ i, size (samplePushed.buffers i) = (contents samplePushed i).length ∧
      (∀ n, (inside : n < (contents samplePushed i).length) →
        getByte n (samplePushed.buf i) = .ok (contents samplePushed i)[n]) ∧
      ∀ n, (contents samplePushed i).length ≤ n →
        getByte n (samplePushed.buf i) = .error (.logicError "index out of bounds!")) ∧
    ∀ op : BufferOp 2, op.Admissible samplePushed →
      Ends (outOfMemory (needs samplePushed op)) (op.run samplePushed) (fun after =>
        Effect samplePushed (contents after) op ∧
        ∀ name, name ∉ touched op → contents after name = contents samplePushed name) :=
  buffers_refine_sequences sample_called

end Operations

end Npoller.BufferSequences
