import Npoller.MemContainer
import Npoller.StepSystem

/-!
Sequential runs of `mem_container`. `push` tests `size <= max_size`, so it pools one
more block when the container holds exactly `max_size`: the test is right on every
other number of blocks.
-/

namespace Npoller.PoolBound

open StepSystem SizeT MemContainer Outcome

/-- `own` are the blocks that the callers hold. -/
structure Pool where
  mem : Mem
  own : List BlockId

/-- `allocate` is a `new char[DEFAULT_SIZE]` of a caller. -/
inductive Op where
  | get
  | allocate
  | push (block : BlockId)
  | setMax (size : Nat)

def Pool.took (s : Pool) : Except Fault (BlockId × Mem) → Option Pool
  | .ok (block, mem) => some ⟨mem, block :: s.own⟩
  | .error _ => none

def Op.run (s : Pool) : Op → Option Pool
  | .get => s.took s.mem.get
  | .allocate => s.took s.mem.newBlock
  | .push block =>
      if block ∈ s.own then some ⟨s.mem.push block, s.own.erase block⟩ else none
  | .setMax size => some { s with mem := s.mem.setMax size }

/-- The container starts empty, with any maximum. -/
def poolSystem : System Pool Op where
  init s := s.own = [] ∧ ∃ cells size, s.mem = Mem.initial cells size
  step before op after := op.run before = some after

/-- No block is pushed while the container holds exactly `max_size`. -/
def OffLimit (s : Pool) : Op → Prop
  | .push _ => s.mem.container.length ≠ s.mem.maxSize
  | .get | .allocate | .setMax _ => True

def KeepsMax : Op → Prop
  | .setMax _ => False
  | .get | .allocate | .push _ => True

instance (op : Op) : Decidable (KeepsMax op) := by
  unfold KeepsMax
  split <;> infer_instance

/-- A push onto a container that is full already deletes its block. -/
def RespectsBound (mem : Mem) (block : BlockId) : Prop :=
  mem.maxSize ≤ mem.container.length →
    (mem.push block).container = mem.container ∧ (mem.push block).deleted = block :: mem.deleted

/-- The counter is the number of blocks, all of which are somewhere. -/
structure Counted (s : Pool) : Prop where
  owns : Owns 0 s.mem s.own
  size : s.mem.size = s.mem.container.length

variable {s after : Pool} {mem : Mem} {block : BlockId}

theorem pooled_few {own : List BlockId} (owns : Owns 0 mem own) :
    mem.container.length ≤ maxBlocks := by
  have total := owns.accounted.length_eq
  have fits := owns.fits
  simp only [List.length_append, List.length_range] at total
  omega

theorem size_exact {own : List BlockId} (owns : Owns 0 mem own)
    (size : mem.size = mem.container.length) :
    (mem.size % (wordSize : Int)).toNat = mem.container.length := by
  have fits := Nat.lt_of_le_of_lt (pooled_few owns) blocks_fit
  rw [size, ← Int.natCast_emod, Int.toNat_natCast, Nat.mod_eq_of_lt fits]

/-- What a push does: it pools the block up to one above the maximum. -/
inductive PushStep (mem : Mem) (block : BlockId) : Mem → Prop where
  | pooled (room : mem.container.length ≤ mem.maxSize) : PushStep mem block { mem with
      container := mem.container ++ [block], size := mem.size + 1 }
  | dropped (full : mem.maxSize < mem.container.length) :
      PushStep mem block { mem with deleted := block :: mem.deleted }

theorem push_steps {own : List BlockId} (owns : Owns 0 mem own)
    (size : mem.size = mem.container.length) (block : BlockId) :
    PushStep mem block (mem.push block) := by
  unfold Mem.push
  rw [size_exact owns size]
  split
  · rename_i room
    exact .pooled room
  · rename_i full
    exact .dropped (Nat.lt_of_not_le full)

theorem respects_bound_iff {own : List BlockId} (owns : Owns 0 mem own)
    (size : mem.size = mem.container.length) (block : BlockId) :
    RespectsBound mem block ↔ mem.container.length ≠ mem.maxSize := by
  have step := push_steps owns size block
  unfold RespectsBound
  generalize mem.push block = pushed at step
  cases step with
  | pooled room =>
      constructor
      · intro respects full
        have same := (respects (Nat.le_of_eq full.symm)).1
        have length := congrArg List.length same
        rw [List.length_append, List.length_singleton] at length
        omega
      · intro apart full
        exact absurd (Nat.le_antisymm room full) apart
  | dropped full => exact iff_of_true (fun _ => ⟨rfl, rfl⟩) (Nat.ne_of_gt full)

structure Took (mem after : Mem) : Prop where
  fewer : after.container.length ≤ mem.container.length
  size : after.size - after.container.length = mem.size - mem.container.length
  maxSize : after.maxSize = mem.maxSize

theorem new_block_took {next : Mem} (new : mem.newBlock = .ok (block, next)) : Took mem next := by
  unfold Mem.newBlock at new
  split at new
  · cases new
    exact ⟨Nat.le_refl _, rfl, rfl⟩
  · cases new

theorem get_took {next : Mem} (got : mem.get = .ok (block, next)) : Took mem next := by
  unfold Mem.get at got
  split at got
  · rename_i pooled rest listed
    cases got
    refine ⟨?_, ?_, rfl⟩
    · rw [listed]
      exact Nat.le_succ _
    · rw [listed, List.length_cons]
      dsimp only
      omega
  · exact new_block_took got

inductive PoolStep (s : Pool) : Op → Pool → Prop where
  | took {op : Op} {block : BlockId} {mem : Mem} (owns : Owns 0 mem (block :: s.own))
      (took : Took s.mem mem) : PoolStep s op ⟨mem, block :: s.own⟩
  | pushed {block : BlockId} (held : block ∈ s.own) :
      PoolStep s (.push block) ⟨s.mem.push block, s.own.erase block⟩
  | limited (size : Nat) : PoolStep s (.setMax size) { s with mem := s.mem.setMax size }

theorem took_steps {op : Op} {result : Except Fault (BlockId × Mem)}
    (moves : s.took result = some after)
    (owns : Ends (fun _ => True) result (fun got => Owns 0 got.2 (got.1 :: s.own)))
    (takes : ∀ block mem, result = .ok (block, mem) → Took s.mem mem) : PoolStep s op after := by
  cases result with
  | error fault => cases moves
  | ok got =>
      cases moves
      exact .took owns (takes got.1 got.2 rfl)

theorem pool_steps {op : Op} (counted : Counted s) (moves : poolSystem.step s op after) :
    PoolStep s op after := by
  have owns := counted.owns
  cases op with
  | get =>
      have got : Ends (fun _ => True) s.mem.get (fun got => Owns 0 got.2 (got.1 :: s.own)) :=
        ends_mono (get_owns owns (Nat.le_refl _)) (fun _ _ => trivial) (fun _ holds => holds.1)
      exact took_steps moves got (fun _ _ got => get_took got)
  | allocate =>
      have new : Ends (fun _ => True) s.mem.newBlock (fun got => Owns 0 got.2 (got.1 :: s.own)) :=
        ends_mono (new_block_owns owns) (fun _ _ => trivial) (fun _ holds => holds.1)
      exact took_steps moves new (fun _ _ new => new_block_took new)
  | push block =>
      change (if block ∈ s.own then some _ else none) = some after at moves
      split at moves
      · rename_i held
        cases moves
        exact .pushed held
      · cases moves
  | setMax size =>
      cases moves
      exact .limited size

theorem step_counted {op : Op} (counted : Counted s) (step : PoolStep s op after) :
    Counted after := by
  have size := counted.size
  cases step with
  | took owns took =>
      have follows := took.size
      exact ⟨owns, by dsimp only; omega⟩
  | @pushed block held =>
      have owns := owns_perm counted.owns (List.perm_cons_erase held)
      refine ⟨push_owns owns, ?_⟩
      have step := push_steps counted.owns size block
      dsimp only
      generalize s.mem.push block = pushed at step
      cases step with
      | pooled room =>
          rw [List.length_append, List.length_singleton, size]
          rfl
      | dropped full => exact size
  | limited size =>
      exact ⟨⟨counted.owns.accounted, counted.owns.grown, counted.owns.fits⟩, counted.size⟩

theorem run_counted {allowed : Pool → Op → Prop} (reached : ReachableBy poolSystem allowed s) :
    Counted s := by
  apply invariant _ _ reached
  · rintro ⟨mem, own⟩ ⟨rfl, cells, size, rfl⟩
    exact ⟨initial_owns cells size, rfl⟩
  · exact fun _ _ _ counted _ moves => step_counted counted (pool_steps counted moves)

theorem push_at_limit (counted : Counted s) (held : block ∈ s.own)
    (limit : s.mem.container.length = s.mem.maxSize) : ¬RespectsBound s.mem block ∧
    ∃ after, poolSystem.step s (.push block) after ∧
      after.mem.maxSize < after.mem.container.length := by
  refine ⟨?_, ⟨s.mem.push block, s.own.erase block⟩, if_pos held, ?_⟩
  · rw [respects_bound_iff counted.owns counted.size]
    exact fun apart => apart limit
  · have step := push_steps counted.owns counted.size block
    dsimp only
    generalize s.mem.push block = pushed at step
    cases step with
    | pooled room =>
        rw [List.length_append, List.length_singleton, limit]
        exact Nat.lt_succ_self _
    | dropped full => exact absurd limit (Nat.ne_of_gt full)

/-- As long as the maximum is kept, `extra` blocks above it are only ever pooled by
pushes at it. -/
theorem step_bounded {op : Op} {extra : Nat} (counted : Counted s) (keeps : KeepsMax op)
    (bounded : s.mem.container.length ≤ s.mem.maxSize + extra)
    (off : extra = 0 → OffLimit s op) (step : PoolStep s op after) :
    after.mem.container.length ≤ after.mem.maxSize + extra := by
  cases step with
  | took _ took =>
      have fewer := took.fewer
      rw [took.maxSize]
      dsimp only
      omega
  | @pushed block held =>
      have step := push_steps counted.owns counted.size block
      dsimp only
      generalize s.mem.push block = pushed at step
      cases step with
      | pooled room =>
          have below : extra = 0 → s.mem.container.length ≠ s.mem.maxSize := off
          rw [List.length_append, List.length_singleton]
          dsimp only
          omega
      | dropped full => exact bounded
  | limited size => exact keeps.elim

theorem run_bounded {extra : Nat}
    (reached : ReachableBy poolSystem (fun s op => KeepsMax op ∧ (extra = 0 → OffLimit s op)) s) :
    s.mem.container.length ≤ s.mem.maxSize + extra := by
  have kept : Counted s ∧ s.mem.container.length ≤ s.mem.maxSize + extra := by
    apply invariant _ _ reached
    · rintro ⟨mem, own⟩ ⟨rfl, cells, size, rfl⟩
      exact ⟨⟨initial_owns cells size, rfl⟩, Nat.zero_le _⟩
    · rintro before op after ⟨counted, bounded⟩ ⟨keeps, off⟩ moves
      have step := pool_steps counted moves
      exact ⟨step_counted counted step, step_bounded counted keeps bounded off step⟩
  exact kept.2

/-- Without `set_max` the container never holds more than one block above the maximum. -/
theorem pool_holds_one_more (reached : ReachableBy poolSystem (fun _ op => KeepsMax op) s) :
    s.mem.container.length ≤ s.mem.maxSize + 1 := by
  apply run_bounded
  exact reachable_mono (fun _ _ keeps => ⟨keeps, nofun⟩) reached

/-- The counter is right. A push respects the bound unless the container holds exactly
`max_size`, and where no such push and no `set_max` has been made the bound is kept. -/
structure BoundKept (s : Pool) : Prop where
  counted : s.mem.size = s.mem.container.length ∧ 0 ≤ s.mem.size ∧ s.mem.size ≤ maxBlocks
  pushes : ∀ block, RespectsBound s.mem block ↔ s.mem.container.length ≠ s.mem.maxSize
  bounded : ReachableBy poolSystem (fun s op => KeepsMax op ∧ OffLimit s op) s →
    s.mem.container.length ≤ s.mem.maxSize

theorem pool_bound_when (reached : Reachable poolSystem s) : BoundKept s := by
  have counted := run_counted reached
  have few := pooled_few counted.owns
  refine ⟨⟨counted.size, ?_, ?_⟩, respects_bound_iff counted.owns counted.size, ?_⟩
  · rw [counted.size]
    exact Int.natCast_nonneg _
  · rw [counted.size]
    exact Int.ofNat_le.mpr few
  · intro off
    have bounded : s.mem.container.length ≤ s.mem.maxSize + 0 :=
      run_bounded (reachable_mono (fun _ _ meets => ⟨meets.1, fun _ => meets.2⟩) off)
    exact bounded

/-- 257 blocks are got from a container with the least maximum, and `count` of them pushed. -/
def pushedBack (count : Nat) : Option Pool :=
  (List.replicate 257 Op.get ++ (List.range count).reverse.map Op.push).foldlM
    (fun s op => if KeepsMax op then op.run s else none) ⟨Mem.initial (fun _ _ => 0) 0, []⟩

def filled : Pool := (pushedBack 256).get (by decide +kernel)

theorem filled_reached : ReachableBy poolSystem (fun _ op => KeepsMax op) filled :=
  guarded_reachable (fun _ _ _ moved => moved) (.start ⟨rfl, _, _, rfl⟩) (Option.some_get _).symm

theorem pool_bound_when_filled : BoundKept filled :=
  pool_bound_when (reachable_of_allowed filled_reached)

/-- The next push pools one block more than the maximum. -/
theorem one_more_is_pooled : ReachableBy poolSystem (fun _ op => KeepsMax op) filled ∧
    ¬RespectsBound filled.mem 256 ∧
    ∃ after, poolSystem.step filled (.push 256) after ∧
      after.mem.maxSize < after.mem.container.length :=
  ⟨filled_reached, push_at_limit (run_counted filled_reached) (by decide +kernel)
    (by decide +kernel)⟩

end Npoller.PoolBound
