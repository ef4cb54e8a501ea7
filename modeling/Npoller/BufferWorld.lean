import Mathlib.Data.List.FinRange
import Mathlib.Logic.Function.Basic
import Npoller.StepSystem
import Npoller.ByteDeque
import Npoller.SelfTransfer
import Npoller.PairTransfer
import Npoller.DirectIoSpec

/-!
Any number of buffers with different control blocks over one block pool, and
every operation the program applies to them. A transfer between two handles of
one control block is the self transfer. Each step keeps the shape of all buffers
and accounts for all blocks; the steps compose to runs.
-/

namespace Npoller.BufferWorld

open Outcome SizeT MemContainer IoBuffer IoBufferSpec IoBufferTransfer TransferRules SelfTransfer
  PairTransfer DirectIo DirectIoSpec StepSystem

structure World (k : Nat) where
  mem : Mem
  buffers : Fin k → ControlBlock

variable {k : Nat} {born : Nat}

def World.buf (w : World k) (i : Fin k) : Buf := ⟨w.mem, w.buffers i⟩

/-- The blocks of all deques, one deque after the other. -/
def World.blocks (w : World k) : List BlockId :=
  (List.finRange k).flatMap (fun i => (w.buffers i).buffer)

def World.set (w : World k) (i : Fin k) (after : Buf) : World k :=
  ⟨after.mem, Function.update w.buffers i after.cb⟩

inductive BufferOp (k : Nat) where
  | pushBack (i : Fin k) (src : Option Source)
  | pushFront (i : Fin k) (src : Option Source)
  | popFront (i : Fin k) (size : Nat)
  | popBack (i : Fin k) (size : Nat)
  | popFrontInto (i : Fin k) (size : Nat)
  | popBackInto (i : Fin k) (size : Nat)
  | shrink (i : Fin k)
  | frontToBack (i j : Fin k) (n : Nat)
  | backToFront (i j : Fin k) (n : Nat)
  | fill (i : Fin k) (results : List ReadResult)
  | drain (i : Fin k) (results : List WriteResult)

/-- `pop_front_to_other_back_n`: the same control block takes the self path. -/
def popFrontToOtherBackN (i j : Fin k) (n : Nat) (w : World k) : Except Fault (World k) :=
  if i = j then do
    let after ← selfPopFrontToBackN n (w.buf i)
    .ok (w.set i after)
  else do
    let after ← otherPopFrontToBackN n ⟨w.mem, w.buffers i, w.buffers j⟩
    .ok ((w.set i ⟨after.mem, after.this⟩).set j ⟨after.mem, after.other⟩)

def popBackToOtherFrontN (i j : Fin k) (n : Nat) (w : World k) : Except Fault (World k) :=
  if i = j then do
    let after ← selfPopBackToFrontN n (w.buf i)
    .ok (w.set i after)
  else do
    let after ← otherPopBackToFrontN n ⟨w.mem, w.buffers i, w.buffers j⟩
    .ok ((w.set i ⟨after.mem, after.this⟩).set j ⟨after.mem, after.other⟩)

def World.on (w : World k) (i : Fin k) (op : Buf → Except Fault Buf) : Except Fault (World k) := do
  let after ← op (w.buf i)
  .ok (w.set i after)

def BufferOp.run (w : World k) : BufferOp k → Except Fault (World k)
  | .pushBack i src => w.on i (pushBackN src)
  | .pushFront i src => w.on i (pushFrontN src)
  | .popFront i size => w.on i (popFrontN size)
  | .popBack i size => w.on i (popBackN size)
  | .popFrontInto i size => w.on i (fun s => Popped.buf <$> IoBuffer.popFrontInto size s)
  | .popBackInto i size => w.on i (fun s => Popped.buf <$> IoBuffer.popBackInto size s)
  | .shrink i => w.on i shrinkSize
  | .frontToBack i j n => popFrontToOtherBackN i j n w
  | .backToFront i j n => popBackToOtherFrontN i j n w
  | .fill i results => w.on i (fun s => ReadDone.buf <$> fillBuffer results s)
  | .drain i results => w.on i (fun s => Drained.buf <$> drainBuffer results s)

/-- The copying pops are called with sizes for which `begin + size` does not wrap. -/
def BufferOp.Admissible (w : World k) : BufferOp k → Prop
  | .popFrontInto i size | .popBackInto i size =>
      (w.buffers i).beginPos ≠ npos → (w.buffers i).beginPos + size < wordSize
  | _ => True

/-- The shape of all buffers together with the account of all blocks. -/
structure Sound (born : Nat) (w : World k) : Prop where
  rep : ∀ i, Rep (w.buffers i)
  owns : Owns born w.mem w.blocks

section Accounting
variable {w : World k}

theorem buffers_split (buffers : Fin k → ControlBlock) (names : List (Fin k)) {i : Fin k}
    (member : i ∈ names) : (names.flatMap (fun j => (buffers j).buffer)).Perm
      ((buffers i).buffer ++ (names.erase i).flatMap (fun j => (buffers j).buffer)) :=
  (List.perm_cons_erase member).flatMap_right _

theorem flat_map_update {buffers : Fin k → ControlBlock} {names : List (Fin k)} {i : Fin k}
    (absent : i ∉ names) (cb : ControlBlock) :
    names.flatMap (fun j => (Function.update buffers i cb j).buffer) =
      names.flatMap (fun j => (buffers j).buffer) := by
  apply List.flatMap_congr
  intro j member
  have different : j ≠ i := by
    rintro rfl
    exact absent member
  rw [Function.update_of_ne different]

theorem not_mem_erase_self (i : Fin k) : i ∉ (List.finRange k).erase i :=
  (List.nodup_finRange k).not_mem_erase

theorem owns_split (i : Fin k) (owns : Owns born w.mem w.blocks) :
    Owns born w.mem ((w.buffers i).buffer ++
      ((List.finRange k).erase i).flatMap (fun j => (w.buffers j).buffer)) :=
  owns_perm owns (buffers_split w.buffers _ (List.mem_finRange i))

theorem on_keeps {allowed : Fault → Prop} {i : Fin k} {op : Buf → Except Fault Buf}
    (rep : ∀ j, Rep (w.buffers j)) (owns : Owns born w.mem w.blocks)
    (serves : ∀ rest, Owns born w.mem ((w.buffers i).buffer ++ rest) →
      Ends allowed (op (w.buf i)) (fun after => ∃ bytes, Serves born rest (w.buf i) after bytes)) :
    Ends allowed (w.on i op) (Sound born) := by
  apply ends_bind (serves _ (owns_split i owns))
  rintro after ⟨bytes, served⟩
  constructor
  · intro j
    by_cases same : j = i
    · subst same
      simpa [World.set] using served.rep
    · simpa [World.set, same] using rep j
  · refine owns_perm served.owns (List.Perm.symm ?_)
    have split := buffers_split (w.set i after).buffers _ (List.mem_finRange i)
    simpa [World.set, World.blocks, flat_map_update (not_mem_erase_self i)] using split

theorem pair_keeps {allowed : Fault → Prop} {i j : Fin k} {op : Pair → Except Fault Pair} (apart : i ≠ j)
    (rep : ∀ name, Rep (w.buffers name)) (owns : Owns born w.mem w.blocks)
    (serves : ∀ rest, Owns born w.mem ((w.buffers i).buffer ++ ((w.buffers j).buffer ++ rest)) →
      Ends allowed (op ⟨w.mem, w.buffers i, w.buffers j⟩) (fun after =>
        ∃ left held, PairServes born rest w.mem after left held)) :
    Ends allowed (op ⟨w.mem, w.buffers i, w.buffers j⟩ >>= fun after =>
      .ok ((w.set i ⟨after.mem, after.this⟩).set j ⟨after.mem, after.other⟩))
      (Sound born) := by
  have member : j ∈ (List.finRange k).erase i :=
    (List.mem_erase_of_ne (Ne.symm apart)).mpr (List.mem_finRange j)
  have absent : i ∉ ((List.finRange k).erase i).erase j :=
    fun inside => not_mem_erase_self i (List.mem_of_mem_erase inside)
  have absentOther : j ∉ ((List.finRange k).erase i).erase j :=
    ((List.nodup_finRange k).erase i).not_mem_erase
  have split := owns_perm (owns_split i owns)
    (List.Perm.append_left _ (buffers_split w.buffers _ member))
  apply ends_bind (serves _ split)
  rintro after ⟨left, held, served⟩
  constructor
  · intro name
    by_cases other : name = j
    · subst other
      simpa [World.set] using served.otherRep
    · by_cases same : name = i
      · subst same
        simpa [World.set, apart] using served.thisRep
      · simpa [World.set, other, same] using rep name
  · refine owns_perm served.owns (List.Perm.symm ?_)
    have whole := buffers_split
      ((w.set i ⟨after.mem, after.this⟩).set j ⟨after.mem, after.other⟩).buffers _
      (List.mem_finRange i)
    have others := buffers_split
      ((w.set i ⟨after.mem, after.this⟩).set j ⟨after.mem, after.other⟩).buffers _ member
    have joined := whole.trans (List.Perm.append_left _ others)
    simpa [World.set, World.blocks, apart, flat_map_update absent, flat_map_update absentOther]
      using joined

end Accounting

section Steps
variable {w : World k}

theorem run_keeps (op : BufferOp k) (sound : Sound born w) (admissible : op.Admissible w) :
    Ends allocFails (op.run w) (Sound born) := by
  have rep := sound.rep
  have owns := sound.owns
  cases op with
  | pushBack i src =>
      apply on_keeps rep owns
      intro rest split
      exact ends_mono (push_back_serves src (rep i) split) out_of_memory_fails
        (fun _ served => ⟨_, served⟩)
  | pushFront i src =>
      apply on_keeps rep owns
      intro rest split
      exact ends_mono (push_front_serves src (rep i) split) out_of_memory_fails
        (fun _ served => ⟨_, served⟩)
  | popFront i size =>
      apply on_keeps rep owns
      intro rest split
      exact ends_total (ends_weaken (pop_front_serves size (rep i) split)
        (fun _ served => ⟨_, served⟩))
  | popBack i size =>
      apply on_keeps rep owns
      intro rest split
      exact ends_total (ends_weaken (pop_back_serves size (rep i) split)
        (fun _ served => ⟨_, served⟩))
  | popFrontInto i size =>
      rw [BufferOp.run]
      apply on_keeps rep owns
      intro rest split
      apply ends_map
      exact ends_total (ends_weaken (pop_front_into_serves size (rep i) split admissible)
        (fun _ served => ⟨_, served.2.2⟩))
  | popBackInto i size =>
      rw [BufferOp.run]
      apply on_keeps rep owns
      intro rest split
      apply ends_map
      exact ends_total (ends_weaken (pop_back_into_serves size (rep i) split)
        (fun _ served => ⟨_, served.2.2⟩))
  | shrink i =>
      apply on_keeps rep owns
      intro rest split
      have within : Within (w.buf i).cb := rep_within (rep i)
      exact ends_total (ends_weaken (shrink_serves within split) (fun _ served => ⟨_, served⟩))
  | frontToBack i j n =>
      by_cases same : i = j
      · subst same
        rw [BufferOp.run, popFrontToOtherBackN, if_pos rfl]
        apply on_keeps rep owns
        intro rest split
        exact ends_mono (self_pop_front_to_back_serves n (rep i) split) out_of_memory_fails
          (fun _ served => ⟨_, served⟩)
      · rw [BufferOp.run, popFrontToOtherBackN, if_neg same]
        apply pair_keeps same rep owns
        intro rest split
        exact ends_mono (other_pop_front_to_back_serves n (rep i) (rep j) split) out_of_memory_fails
          (fun _ served => ⟨_, _, served⟩)
  | backToFront i j n =>
      by_cases same : i = j
      · subst same
        rw [BufferOp.run, popBackToOtherFrontN, if_pos rfl]
        apply on_keeps rep owns
        intro rest split
        exact ends_mono (self_pop_back_to_front_serves n (rep i) split) out_of_memory_fails
          (fun _ served => ⟨_, served⟩)
      · rw [BufferOp.run, popBackToOtherFrontN, if_neg same]
        apply pair_keeps same rep owns
        intro rest split
        exact ends_mono (other_pop_back_to_front_serves n (rep i) (rep j) split) out_of_memory_fails
          (fun _ served => ⟨_, _, served⟩)
  | fill i results =>
      rw [BufferOp.run]
      apply on_keeps rep owns
      intro rest split
      apply ends_map
      exact ends_mono (fill_buffer_serves results (rep i) split) out_of_memory_fails
        (fun _ served => ⟨_, served⟩)
  | drain i results =>
      rw [BufferOp.run]
      apply on_keeps rep owns
      intro rest split
      apply ends_map
      exact ends_total (ends_weaken (drain_buffer_spec results (rep i) split)
        (fun _ drained => ⟨_, drained.serves⟩))

end Steps

section Runs
variable {w : World k}

/-- All buffers start fresh, over a pool in any state of its own. -/
def worldSystem (k : Nat) : System (World k) (BufferOp k) where
  init w := (∀ i, w.buffers i = .fresh) ∧ Owns 0 w.mem []
  step before op after := op.run before = .ok after

theorem start_sound (begins : (worldSystem k).init w) : Sound 0 w := by
  obtain ⟨fresh, owns⟩ := begins
  constructor
  · intro i
    rw [fresh i]
    exact fresh_rep
  · have none_ : w.blocks = [] := by
      simp [World.blocks, List.flatMap_eq_nil_iff, fresh, ControlBlock.fresh]
    rw [none_]
    exact owns

theorem reachable_sound (reached : ReachableBy (worldSystem k) BufferOp.Admissible w) :
    Sound 0 w := by
  apply invariant (fun _ begins => start_sound begins) _ reached
  intro before op after sound admissible moves
  exact ends_value (run_keeps op sound admissible) moves

theorem retained_blocks {mem : Mem} {cb : ControlBlock} (rep : Rep cb) :
    cb.buffer.length ≤ (content ⟨mem, cb⟩).length / defaultSize + 2 := by
  rcases rep with vacant | filled
  · exact Nat.le_trans vacant.2.2 (Nat.le_add_left 1 (_ + 1))
  · have length : (content ⟨mem, cb⟩).length = cb.endPos - cb.beginPos :=
      content_length filled.within
    have nonempty := filled.nonempty
    have first := filled.first
    have reach : cb.endPos ≤ cb.endPos - cb.beginPos + defaultSize := by omega
    have blocks := Nat.div_le_div_right (c := defaultSize) reach
    rw [Nat.add_div_right _ block_size_pos] at blocks
    have compact := filled.compact
    rw [length]
    omega

/-- After every run each buffer has its shape and retains at most two blocks more
than its bytes fill, and no further operation raises an exception other than
`std::bad_alloc`; in particular none raises the `logic_error` of `check`. -/
theorem run_keeps_shape (reached : ReachableBy (worldSystem k) BufferOp.Admissible w) :
    (∀ i, (Vacant (w.buffers i) ∨ Filled (w.buffers i)) ∧
      (w.buffers i).buffer.length ≤ (content (w.buf i)).length / defaultSize + 2) ∧
    ∀ op : BufferOp k, op.Admissible w → ∀ fault, op.run w = .error fault → fault = .badAlloc := by
  have sound := reachable_sound reached
  constructor
  · intro i
    exact ⟨sound.rep i, retained_blocks (sound.rep i)⟩
  · intro op admissible fault thrown
    have only : allocFails fault := ends_fault (run_keeps op sound admissible) thrown
    exact only

/-- Two fresh buffers, and the same after two bytes are pushed to the first. -/
def sampleStart : World 2 := ⟨Mem.initial (fun _ _ => 9) 0x40000000, fun _ => .fresh⟩

def samplePushed : World 2 := sampleStart.set 0
  ⟨{ sampleStart.mem with
      cells := Segments.store (Segments.store (fun _ _ => 9) 0 0 1) 0 1 2, next := 1 }, [0], 0, 2⟩

theorem sample_reachable : ReachableBy (worldSystem 2) BufferOp.Admissible samplePushed := by
  have begins : (worldSystem 2).init sampleStart := ⟨fun _ => rfl, initial_owns _ _⟩
  have meets : BufferOp.Admissible sampleStart (.pushBack 0 (some ⟨[1, 2], by decide⟩)) := trivial
  have moves : BufferOp.run sampleStart (.pushBack 0 (some ⟨[1, 2], by decide⟩)) =
      .ok samplePushed := by
    with_unfolding_all rfl
  exact .next (.start begins) meets moves

theorem run_keeps_shape_sample :
    (∀ i, (Vacant (samplePushed.buffers i) ∨ Filled (samplePushed.buffers i)) ∧
      (samplePushed.buffers i).buffer.length ≤
        (content (samplePushed.buf i)).length / defaultSize + 2) ∧
    ∀ op : BufferOp 2, op.Admissible samplePushed → ∀ fault,
      op.run samplePushed = .error fault → fault = .badAlloc :=
  run_keeps_shape sample_reachable

theorem sound_places {block : BlockId} (sound : Sound born w) (exists_ : block < born) :
    (w.blocks ++ (w.mem.container ++ w.mem.deleted)).count block = 1 := by
  have owns := sound.owns
  apply List.count_eq_one_of_mem (owns_nodup owns)
  rw [owns.accounted.mem_iff, List.mem_range]
  exact Nat.lt_of_lt_of_le exists_ owns.grown

/-- No block is in two places after any run, and no step loses one. -/
theorem run_shares_no_block (reached : ReachableBy (worldSystem k) BufferOp.Admissible w) :
    (w.blocks ++ w.mem.container).Nodup ∧
    ∀ op : BufferOp k, op.Admissible w → ∀ after, op.run w = .ok after →
      ∀ block ∈ w.blocks ++ w.mem.container,
        (after.blocks ++ (after.mem.container ++ after.mem.deleted)).count block = 1 := by
  have sound := reachable_sound reached
  have unique := owns_nodup sound.owns
  rw [← List.append_assoc] at unique
  refine ⟨(List.nodup_append.mp unique).1, ?_⟩
  intro op admissible after moves block member
  have known : Sound w.mem.next w := ⟨sound.rep, owns_now sound.owns⟩
  apply sound_places (ends_value (run_keeps op known admissible) moves)
  have listed := sound.owns.accounted.mem_iff (a := block)
  rw [List.mem_range] at listed
  apply listed.mp
  rw [← List.append_assoc]
  exact List.mem_append_left _ member

theorem run_shares_no_block_sample :
    (samplePushed.blocks ++ samplePushed.mem.container).Nodup ∧
    ∀ op : BufferOp 2, op.Admissible samplePushed → ∀ after, op.run samplePushed = .ok after →
      ∀ block ∈ samplePushed.blocks ++ samplePushed.mem.container,
        (after.blocks ++ (after.mem.container ++ after.mem.deleted)).count block = 1 :=
  run_shares_no_block sample_reachable

end Runs

end Npoller.BufferWorld
