import Npoller.BufferSequences

/-!
`io_buffer` objects as handles: copies and assignments share a control block, and the
last handle of a control block destroys it. The destructor of a control block gives no
block back, so the blocks its deque lists at that time are lost.
-/

namespace Npoller.BufferHandles

open Outcome MemContainer IoBuffer IoBufferSpec BufferWorld BufferCalls BufferSequences StepSystem

variable {k m : Nat}

/-- `m` places for handles; `used` lists the control blocks that were ever created. -/
structure Handles (k m : Nat) where
  world : World k
  points : Fin m → Option (Fin k)
  used : List (Fin k)

def Referenced (points : Fin m → Option (Fin k)) (i : Fin k) : Prop := ∃ h, points h = some i

instance (points : Fin m → Option (Fin k)) (i : Fin k) : Decidable (Referenced points i) :=
  inferInstanceAs (Decidable (∃ h, points h = some i))

def named : BufferCall k → List (Fin k)
  | .op (.frontToBack i j _) | .op (.backToFront i j _) => [i, j]
  | .op (.pushBack i _) | .op (.pushFront i _) | .op (.popFront i _) | .op (.popBack i _)
  | .op (.popFrontInto i _) | .op (.popBackInto i _) | .op (.shrink i) | .op (.fill i _)
  | .op (.drain i _) | .set i _ _ | .get i _ | .getN i _ _ => [i]

inductive HandleOp (k m : Nat) where
  | construct (h : Fin m) (i : Fin k)
  | copy (h source : Fin m)
  | assign (h source : Fin m)
  | destroy (h : Fin m)
  | call (which : BufferCall k)

/-- A constructor needs a free place and a new control block, a call a handle of each
buffer it names. -/
def HandleOp.run (s : Handles k m) : HandleOp k m → Option (Handles k m)
  | .construct h i =>
      if s.points h = none ∧ i ∉ s.used then
        some { s with points := Function.update s.points h (some i), used := i :: s.used }
      else none
  | .copy h source =>
      if s.points h = none ∧ s.points source ≠ none then
        some { s with points := Function.update s.points h (s.points source) }
      else none
  | .assign h source =>
      if s.points h ≠ none ∧ s.points source ≠ none then
        some { s with points := Function.update s.points h (s.points source) }
      else none
  | .destroy h => some { s with points := Function.update s.points h none }
  | .call which =>
      if ∀ i ∈ named which, Referenced s.points i then
        match which.run s.world with
        | .ok world => some { s with world }
        | .error _ => none
      else none

def handleSystem (k m : Nat) : System (Handles k m) (HandleOp k m) where
  init s := (worldSystem k).init s.world ∧ (∀ h, s.points h = none) ∧ s.used = []
  step before op after := op.run before = some after

/-- The blocks in deques no handle leads to. -/
def lost (s : Handles k m) : List BlockId :=
  ((List.finRange k).filter (fun i => ¬Referenced s.points i)).flatMap
    (fun i => (s.world.buffers i).buffer)

/-- The blocks in deques of buffers. -/
def live (s : Handles k m) : List BlockId :=
  ((List.finRange k).filter (fun i => Referenced s.points i)).flatMap
    (fun i => (s.world.buffers i).buffer)

section Untouched
variable {w : World k} {i j : Fin k}

theorem ends_any {α : Type} (result : Except Fault α) :
    Ends (fun _ => True) result (fun _ => True) := by
  cases result <;> exact trivial

theorem on_untouched (op : Buf → Except Fault Buf) (apart : j ≠ i) :
    Ends (fun _ => True) (w.on i op) (fun after => after.buffers j = w.buffers j) := by
  apply ends_bind (ends_any _)
  intro after _
  exact Function.update_of_ne apart _ _

theorem pair_untouched {other : Fin k} {result : Except Fault IoBufferTransfer.Pair}
    (apart : j ≠ i) (apartOther : j ≠ other) :
    Ends (fun _ => True) (result >>= fun after =>
      .ok ((w.set i ⟨after.mem, after.this⟩).set other ⟨after.mem, after.other⟩))
      (fun after => after.buffers j = w.buffers j) := by
  apply ends_bind (ends_any _)
  intro after _
  calc Function.update (Function.update w.buffers i after.this) other after.other j
      = Function.update w.buffers i after.this j := Function.update_of_ne apartOther _ _
    _ = w.buffers j := Function.update_of_ne apart _ _

theorem call_untouched (which : BufferCall k) (away : j ∉ named which) :
    Ends (fun _ => True) (which.run w) (fun after => after.buffers j = w.buffers j) := by
  cases which with
  | op op =>
      rw [BufferCall.run]
      cases op with
      | frontToBack i other n =>
          have apart : j ≠ i := fun same => away (same ▸ List.mem_cons_self ..)
          have apartOther : j ≠ other := fun same =>
            away (same ▸ List.mem_cons_of_mem _ (List.mem_cons_self ..))
          rw [BufferOp.run, popFrontToOtherBackN]
          split
          · exact on_untouched _ apart
          · exact pair_untouched apart apartOther
      | backToFront i other n =>
          have apart : j ≠ i := fun same => away (same ▸ List.mem_cons_self ..)
          have apartOther : j ≠ other := fun same =>
            away (same ▸ List.mem_cons_of_mem _ (List.mem_cons_self ..))
          rw [BufferOp.run, popBackToOtherFrontN]
          split
          · exact on_untouched _ apart
          · exact pair_untouched apart apartOther
      | _ =>
          rw [BufferOp.run]
          exact on_untouched _ (List.ne_of_not_mem_cons away)
  | _ =>
      rw [BufferCall.run]
      exact on_untouched _ (List.ne_of_not_mem_cons away)

end Untouched

section Handles
variable {s after : Handles k m} {op : HandleOp k m}

/-- A control block that was never created has no block, and one with a handle was
created. -/
structure Kept (s : Handles k m) : Prop where
  sound : Sound 0 s.world
  created : ∀ h i, s.points h = some i → i ∈ s.used
  fresh : ∀ i, i ∉ s.used → s.world.buffers i = .fresh

/-- Nothing leads back to a control block that has lost its last handle, and its deque
stays as it is. -/
structure Leaves (s after : Handles k m) : Prop where
  kept : Kept after
  used : ∀ i ∈ s.used, i ∈ after.used
  dead : ∀ i ∈ s.used, ¬Referenced s.points i →
    ¬Referenced after.points i ∧ after.world.buffers i = s.world.buffers i

theorem points_update {points : Fin m → Option (Fin k)} {h place : Fin m}
    {target : Option (Fin k)} {i : Fin k}
    (at_ : Function.update points h target place = some i) :
    target = some i ∨ points place = some i := by
  by_cases same : place = h
  · subst same
    rw [Function.update_self] at at_
    exact .inl at_
  · rw [Function.update_of_ne same] at at_
    exact .inr at_

theorem pointed_leaves {h : Fin m} {target : Option (Fin k)} (kept : Kept s)
    (known : ∀ i, target = some i → Referenced s.points i) :
    Leaves s { s with points := Function.update s.points h target } := by
  refine ⟨⟨kept.sound, ?_, kept.fresh⟩, fun _ member => member, ?_⟩
  · intro place i at_
    rcases points_update at_ with new | old
    · obtain ⟨other, there⟩ := known i new
      exact kept.created other i there
    · exact kept.created place i old
  · intro i _ dead
    refine ⟨?_, rfl⟩
    rintro ⟨place, at_⟩
    rcases points_update at_ with new | old
    · exact dead (known i new)
    · exact dead ⟨place, old⟩

theorem construct_leaves {h : Fin m} {i : Fin k} (kept : Kept s) (new : i ∉ s.used) :
    Leaves s { s with points := Function.update s.points h (some i), used := i :: s.used } := by
  refine ⟨⟨kept.sound, ?_, ?_⟩, fun _ member => List.mem_cons_of_mem _ member, ?_⟩
  · intro place j at_
    rcases points_update at_ with created | old
    · cases created
      exact List.mem_cons_self ..
    · exact List.mem_cons_of_mem _ (kept.created place j old)
  · intro j away
    exact kept.fresh j (fun member => away (List.mem_cons_of_mem _ member))
  · intro j member dead
    refine ⟨?_, rfl⟩
    rintro ⟨place, at_⟩
    rcases points_update at_ with created | old
    · cases created
      exact new member
    · exact dead ⟨place, old⟩

theorem call_leaves {which : BufferCall k} {world : World k} (kept : Kept s)
    (handles : ∀ i ∈ named which, Referenced s.points i) (ran : which.run s.world = .ok world) :
    Leaves s { s with world := world } := by
  have sound := ends_value (call_keeps which kept.sound) ran
  have same : ∀ i, ¬Referenced s.points i → world.buffers i = s.world.buffers i := by
    intro i dead
    have away : i ∉ named which := fun member => dead (handles i member)
    have untouched := ends_value (call_untouched which away) ran
    exact untouched
  refine ⟨⟨sound, kept.created, ?_⟩, fun _ member => member, fun i _ dead => ⟨dead, same i dead⟩⟩
  intro i away
  have dead : ¬Referenced s.points i := by
    rintro ⟨h, at_⟩
    exact away (kept.created h i at_)
  exact (same i dead).trans (kept.fresh i away)

theorem run_leaves (kept : Kept s) (moves : op.run s = some after) : Leaves s after := by
  cases op with
  | construct h i =>
      rw [HandleOp.run] at moves
      split at moves
      · rename_i guard
        cases moves
        exact construct_leaves kept guard.2
      · cases moves
  | copy h source | assign h source =>
      rw [HandleOp.run] at moves
      split at moves
      · cases moves
        exact pointed_leaves kept (fun i at_ => ⟨source, at_⟩)
      · cases moves
  | destroy h =>
      cases moves
      exact pointed_leaves kept nofun
  | call which =>
      rw [HandleOp.run] at moves
      split at moves
      · rename_i handles
        split at moves
        · rename_i world ran
          cases moves
          exact call_leaves kept handles ran
        · cases moves
      · cases moves

theorem handles_kept (reached : Reachable (handleSystem k m) s) : Kept s := by
  apply invariant _ _ reached
  · rintro state ⟨begins, none_, unused⟩
    refine ⟨start_sound begins, ?_, fun i _ => begins.1 i⟩
    intro h i at_
    rw [none_ h] at at_
    cases at_
  · intro before op after kept _ moves
    exact (run_leaves kept moves).kept

theorem mem_lost {block : BlockId} : block ∈ lost s ↔
    ∃ i, ¬Referenced s.points i ∧ block ∈ (s.world.buffers i).buffer := by
  simp [lost, List.mem_flatMap]

theorem blocks_accounted (kept : Kept s) :
    (live s ++ lost s ++ (s.world.mem.container ++ s.world.mem.deleted)).Perm
      (List.range s.world.mem.next) := by
  have parts : (live s ++ lost s).Perm s.world.blocks := by
    rw [live, lost, ← List.flatMap_append]
    apply List.Perm.flatMap_right
    simpa using List.filter_append_perm (fun i => decide (Referenced s.points i)) (List.finRange k)
  exact (List.Perm.append_right _ parts).trans kept.sound.owns.accounted

def handlesFrom (s : Handles k m) : System (Handles k m) (HandleOp k m) where
  init state := state = s
  step := (handleSystem k m).step

theorem dead_stays {t : Handles k m} {i : Fin k} (kept : Kept s) (created : i ∈ s.used)
    (dead : ¬Referenced s.points i) (later : Reachable (handlesFrom s) t) :
    Kept t ∧ i ∈ t.used ∧ ¬Referenced t.points i ∧ t.world.buffers i = s.world.buffers i := by
  have follows : ∀ state, Reachable (handlesFrom s) state → Kept state ∧ i ∈ state.used ∧
      ¬Referenced state.points i ∧ state.world.buffers i = s.world.buffers i := by
    intro state reached
    induction reached with
    | start begins =>
        cases begins
        exact ⟨kept, created, dead, rfl⟩
    | next _ _ moves ih =>
        obtain ⟨kept, created, dead, same⟩ := ih
        have leaves := run_leaves kept moves
        obtain ⟨stays, deque⟩ := leaves.dead i created dead
        exact ⟨leaves.kept, leaves.used i created, stays, deque.trans same⟩
  exact follows t later

theorem lost_elsewhere {block : BlockId} (kept : Kept s) (gone : block ∈ lost s) :
    block ∉ live s ∧ block ∉ s.world.mem.container ∧ block ∉ s.world.mem.deleted := by
  have once := (blocks_accounted kept).nodup_iff.mpr List.nodup_range
  rw [List.append_assoc, List.nodup_append] at once
  obtain ⟨_, rest, apart⟩ := once
  rw [List.nodup_append] at rest
  refine ⟨?_, ?_, ?_⟩
  · intro held
    exact apart block held block (List.mem_append_left _ gone) rfl
  · intro pooled
    exact rest.2.2 block gone block (List.mem_append_left _ pooled) rfl
  · intro freed
    exact rest.2.2 block gone block (List.mem_append_right _ freed) rfl

theorem last_handle {i : Fin k} (moves : op.run s = some after) (was : Referenced s.points i)
    (gone : ¬Referenced after.points i) :
    after.world = s.world ∧ ∀ j, Referenced after.points j ↔ Referenced s.points j ∧ j ≠ i := by
  have moved (h : Fin m) (target : Option (Fin k))
      (known : ∀ j, target = some j → Referenced s.points j)
      (gone : ¬Referenced (Function.update s.points h target) i) (j : Fin k) :
      Referenced (Function.update s.points h target) j ↔ Referenced s.points j ∧ j ≠ i := by
    constructor
    · rintro ⟨place, at_⟩
      refine ⟨?_, fun same => gone (same ▸ ⟨place, at_⟩)⟩
      rcases points_update at_ with new | old
      · exact known j new
      · exact ⟨place, old⟩
    · rintro ⟨⟨place, at_⟩, apart⟩
      -- the handle that is changed was the last one
      have changed : s.points h = some i := by
        obtain ⟨last, there⟩ := was
        by_cases same : last = h
        · exact same ▸ there
        · exact absurd ⟨last, (Function.update_of_ne same _ _).trans there⟩ gone
      have away : place ≠ h := by
        rintro rfl
        rw [changed] at at_
        cases at_
        exact apart rfl
      exact ⟨place, (Function.update_of_ne away _ _).trans at_⟩
  cases op with
  | construct h j =>
      rw [HandleOp.run] at moves
      split at moves
      · rename_i guard
        cases moves
        obtain ⟨last, there⟩ := was
        have away : last ≠ h := by
          rintro rfl
          rw [guard.1] at there
          cases there
        exact absurd ⟨last, (Function.update_of_ne away _ _).trans there⟩ gone
      · cases moves
  | copy h source | assign h source =>
      rw [HandleOp.run] at moves
      split at moves
      · cases moves
        exact ⟨rfl, moved h _ (fun j at_ => ⟨source, at_⟩) gone⟩
      · cases moves
  | destroy h =>
      cases moves
      exact ⟨rfl, moved h none nofun gone⟩
  | call which =>
      rw [HandleOp.run] at moves
      split at moves
      · split at moves
        · cases moves
          exact absurd was gone
        · cases moves
      · cases moves

/-- The last handle of a control block takes the blocks of its deque with it, whether it
is destroyed or assigned: they are lost in the state after it and in every later one, in
no buffer, not in the pool and not freed, and they are as many as the bytes need and at
most two more. -/
theorem last_handle_loses {i : Fin k} (reached : Reachable (handleSystem k m) s)
    (moves : op.run s = some after) (was : Referenced s.points i)
    (gone : ¬Referenced after.points i) :
    (lost after).Perm ((s.world.buffers i).buffer ++ lost s) ∧
    ((contents s.world i).length ≤ (s.world.buffers i).buffer.length * defaultSize ∧
      (s.world.buffers i).buffer.length ≤ (contents s.world i).length / defaultSize + 2) ∧
    ∀ t, Reachable (handlesFrom after) t → ∀ block ∈ (s.world.buffers i).buffer,
      block ∈ lost t ∧ block ∉ live t ∧ block ∉ t.world.mem.container ∧
        block ∉ t.world.mem.deleted := by
  have kept := handles_kept reached
  have leaves := run_leaves kept moves
  obtain ⟨world, others⟩ := last_handle moves was gone
  have rep := kept.sound.rep i
  refine ⟨?_, ⟨?_, retained_blocks rep⟩, ?_⟩
  · have names : ((List.finRange k).filter (fun j => ¬Referenced after.points j)).Perm
        (i :: (List.finRange k).filter (fun j => ¬Referenced s.points j)) := by
      rw [List.perm_ext_iff_of_nodup ((List.nodup_finRange k).filter _)
        (List.nodup_cons.mpr ⟨by simp [was], (List.nodup_finRange k).filter _⟩)]
      intro j
      by_cases same : j = i
      · simp [same, gone]
      · simp [others j, same]
    rw [lost, world]
    exact names.flatMap_right _
  · have length : (contents s.world i).length = _ := content_length (rep_within rep)
    rw [length]
    exact Nat.le_trans (Nat.sub_le _ _) (rep_within rep)
  · intro t later block listed
    obtain ⟨h, at_⟩ := was
    have created := leaves.used i (kept.created h i at_)
    obtain ⟨keptLater, _, dead, same⟩ := dead_stays leaves.kept created gone later
    have isLost : block ∈ lost t := mem_lost.mpr ⟨i, dead, by rwa [same, world]⟩
    exact ⟨isLost, lost_elsewhere keptLater isLost⟩

def sampleBuffer : Fin 2 := ⟨0, Nat.succ_pos 1⟩

def samplePlace : Fin 1 := ⟨0, Nat.succ_pos 0⟩

def sampleHandles (world : World 2) : Handles 2 1 :=
  ⟨world, Function.update (fun _ => none) samplePlace (some sampleBuffer), [sampleBuffer]⟩

theorem sample_handles_reached : Reachable (handleSystem 2 1) (sampleHandles samplePushed) := by
  have begins : (handleSystem 2 1).init ⟨sampleStart, fun _ => none, []⟩ :=
    ⟨⟨fun _ => rfl, initial_owns _ _⟩, fun _ => rfl, rfl⟩
  have created : (handleSystem 2 1).step ⟨sampleStart, fun _ => none, []⟩
      (.construct samplePlace sampleBuffer) (sampleHandles sampleStart) := by
    simp [handleSystem, HandleOp.run, sampleHandles]
  have pushes : BufferCall.run sampleStart (.op (.pushBack sampleBuffer
      (some ⟨[1, 2], by decide⟩))) = .ok samplePushed := by
    with_unfolding_all rfl
  have pushed : (handleSystem 2 1).step (sampleHandles sampleStart)
      (.call (.op (.pushBack sampleBuffer (some ⟨[1, 2], by decide⟩))))
      (sampleHandles samplePushed) := by
    have handles : ∀ i ∈ named (.op (.pushBack sampleBuffer (some ⟨[1, 2], by decide⟩))),
        Referenced (sampleHandles sampleStart).points i := by
      intro i member
      exact ⟨samplePlace, by rw [List.mem_singleton.mp member]; rfl⟩
    have world : (sampleHandles sampleStart).world = sampleStart := rfl
    change HandleOp.run _ _ = _
    rw [HandleOp.run, if_pos handles, world, pushes]
    rfl
  exact reachable_next (reachable_next (.start begins) created) pushed

theorem last_handle_loses_sample :
    ∃ after, HandleOp.run (sampleHandles samplePushed) (.destroy samplePlace) = some after ∧
      (lost after).Perm ((samplePushed.buffers sampleBuffer).buffer ++
        lost (sampleHandles samplePushed)) := by
  have was : Referenced (sampleHandles samplePushed).points sampleBuffer := ⟨samplePlace, rfl⟩
  have gone : ¬Referenced (Function.update (sampleHandles samplePushed).points samplePlace none)
      sampleBuffer := by
    decide
  have moves : HandleOp.run (sampleHandles samplePushed) (.destroy samplePlace) =
      some { sampleHandles samplePushed with
        points := Function.update (sampleHandles samplePushed).points samplePlace none } := rfl
  exact ⟨_, moves, (last_handle_loses sample_handles_reached moves was gone).1⟩

end Handles

end Npoller.BufferHandles
