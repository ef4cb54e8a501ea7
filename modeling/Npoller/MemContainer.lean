import Mathlib.Data.List.Basic
import Mathlib.Data.List.Range
import Npoller.Outcome
import Npoller.Segments
import Npoller.SizeT

/-!
Blocks and the block pool of `iobuffer/buffer.h`. A block is an identifier that
`new char[DEFAULT_SIZE]` never hands out twice; its bytes live in `cells` and
are arbitrary until written. No address space holds 2^31 blocks (4 PiB), so the
allocation that would need them throws `std::bad_alloc`, and a block's index
fits the `int` that some loops keep it in. `container` is the lock-free queue in
FIFO order and `size` its separate counter.
-/

namespace Npoller.MemContainer

open Outcome SizeT

abbrev Byte := UInt8
abbrev BlockId := Nat

/-- `#define DEFAULT_SIZE 0x200000` -/
@[irreducible] def defaultSize : Nat := 0x200000

def minCapacity : Nat := 0x100

/-- The most blocks that can be in use or pooled at one time. -/
def maxBlocks : Nat := 2147483647

inductive Fault where
  | badAlloc
  | logicError (what : String)
  | outOfRange
  | nullPointer
  deriving DecidableEq, Repr

theorem block_size_pos : 0 < defaultSize := by simp only [defaultSize]; omega

theorem whole_block_iff (pos : Nat) : pos / defaultSize > 0 ↔ defaultSize ≤ pos :=
  Nat.div_pos_iff.trans ⟨fun h => h.2, fun h => ⟨block_size_pos, h⟩⟩

theorem block_index_iff (pos blocks : Nat) :
    pos / defaultSize < blocks ↔ pos < blocks * defaultSize :=
  Nat.div_lt_iff_lt_mul block_size_pos

theorem bytes_bounded {blocks : Nat} (few : blocks ≤ maxBlocks) :
    blocks * defaultSize + defaultSize ≤ 9223372036854775808 := by
  simp only [defaultSize, maxBlocks] at *
  omega

theorem position_fits {blocks pos : Nat} (few : blocks ≤ maxBlocks)
    (inside : pos ≤ blocks * defaultSize) : pos < wordSize := by
  have limit := bytes_bounded few
  simp only [wordSize]
  omega

theorem position_not_npos {blocks pos : Nat} (few : blocks ≤ maxBlocks)
    (inside : pos ≤ blocks * defaultSize) : pos ≠ npos := by
  have limit := bytes_bounded few
  simp only [npos]
  omega

theorem wsub_position {blocks left right : Nat} (few : blocks ≤ maxBlocks)
    (inside : left ≤ blocks * defaultSize) (order : right ≤ left) :
    wsub left right = left - right := wsub_exact order (position_fits few inside)

theorem blocks_fit : maxBlocks < wordSize := by
  simp only [maxBlocks, wordSize]
  omega

theorem wadd_position {blocks left right : Nat} (few : blocks ≤ maxBlocks)
    (inside : left + right ≤ blocks * defaultSize) : wadd left right = left + right :=
  wadd_exact (position_fits few inside)

/-- `std::bad_alloc`, and only with `held` blocks in use already. -/
def outOfMemory (held : Nat) (fault : Fault) : Prop := fault = .badAlloc ∧ maxBlocks ≤ held

theorem out_of_memory_mono {few many : Nat} (more : few ≤ many) (fault : Fault)
    (thrown : outOfMemory few fault) : outOfMemory many fault :=
  ⟨thrown.1, Nat.le_trans thrown.2 more⟩

structure Mem where
  cells : BlockId → Nat → Byte
  next : Nat
  deleted : List BlockId
  container : List BlockId
  size : Int
  maxSize : Nat

def capacityFor (size : Nat) : Nat := if size > minCapacity then size else minCapacity

def Mem.initial (cells : BlockId → Nat → Byte) (size : Nat) : Mem :=
  { cells, next := 0, deleted := [], container := [], size := 0, maxSize := capacityFor size }

def Mem.setMax (mem : Mem) (size : Nat) : Mem := { mem with maxSize := capacityFor size }

/-- `new char[DEFAULT_SIZE]` -/
def Mem.newBlock (mem : Mem) : Except Fault (BlockId × Mem) :=
  if mem.next < mem.deleted.length + maxBlocks then
    .ok (mem.next, { mem with next := mem.next + 1 })
  else .error .badAlloc

def Mem.get (mem : Mem) : Except Fault (BlockId × Mem) :=
  match mem.container with
  | block :: rest => .ok (block, { mem with container := rest, size := mem.size - 1 })
  | [] => mem.newBlock

/-- The blocks in use or pooled. -/
def Mem.live (mem : Mem) : Nat := mem.next - mem.deleted.length

/-- The `int` counter is converted to `size_t` for the comparison. -/
def Mem.push (mem : Mem) (block : BlockId) : Mem :=
  if (mem.size % (wordSize : Int)).toNat ≤ mem.maxSize then
    { mem with container := mem.container ++ [block], size := mem.size + 1 }
  else { mem with deleted := block :: mem.deleted }

def Mem.write (mem : Mem) (block : BlockId) (offset : Nat) (value : Byte) : Mem :=
  { mem with cells := Segments.store mem.cells block offset value }

/-- Every block allocated so far is exactly one of: owned by a deque, pooled,
deleted. `own` lists the deques' blocks; the first `born` blocks existed at some
earlier time and are therefore among them. -/
structure Owns (born : Nat) (mem : Mem) (own : List BlockId) : Prop where
  accounted : (own ++ (mem.container ++ mem.deleted)).Perm (List.range mem.next)
  grown : born ≤ mem.next
  fits : mem.next ≤ mem.deleted.length + maxBlocks

variable {born : Nat}

theorem initial_owns (cells : BlockId → Nat → Byte) (size : Nat) :
    Owns 0 (Mem.initial cells size) [] :=
  ⟨List.Perm.refl _, Nat.zero_le _, Nat.zero_le _⟩

theorem owns_now {mem : Mem} {own : List BlockId} (owns : Owns born mem own) :
    Owns mem.next mem own :=
  ⟨owns.accounted, Nat.le_refl _, owns.fits⟩

theorem owns_perm {mem : Mem} {own other : List BlockId} (owns : Owns born mem own)
    (same : own.Perm other) : Owns born mem other :=
  ⟨(same.symm.append_right _).trans owns.accounted, owns.grown, owns.fits⟩

theorem owns_swap {mem : Mem} {own other rest : List BlockId}
    (owns : Owns born mem (own ++ (other ++ rest))) : Owns born mem (other ++ (own ++ rest)) := by
  refine owns_perm owns ?_
  rw [← List.append_assoc, ← List.append_assoc]
  exact List.Perm.append_right rest List.perm_append_comm

theorem owns_nodup {mem : Mem} {own : List BlockId} (owns : Owns born mem own) :
    (own ++ (mem.container ++ mem.deleted)).Nodup :=
  owns.accounted.nodup_iff.mpr List.nodup_range

theorem owns_unique {mem : Mem} {own : List BlockId} (owns : Owns born mem own) : own.Nodup :=
  (List.nodup_append.mp (owns_nodup owns)).1

theorem owns_length {mem : Mem} {own : List BlockId} (owns : Owns born mem own) :
    own.length ≤ maxBlocks := by
  have total := owns.accounted.length_eq
  have fits := owns.fits
  simp only [List.length_append, List.length_range] at total
  omega

theorem owns_left_unique {mem : Mem} {own rest : List BlockId} (owns : Owns born mem (own ++ rest)) :
    own.Nodup := (List.nodup_append.mp (owns_unique owns)).1

theorem owns_apart {mem : Mem} {own rest : List BlockId} {block : BlockId}
    (owns : Owns born mem (own ++ rest)) (member : block ∈ own) : block ∉ rest :=
  fun other => (List.nodup_append.mp (owns_unique owns)).2.2 block member block other rfl

theorem owns_live {mem : Mem} {own : List BlockId} (owns : Owns born mem own) :
    mem.live = own.length + mem.container.length := by
  have total := owns.accounted.length_eq
  simp only [List.length_append, List.length_range] at total
  rw [Mem.live]
  omega

@[simp] theorem write_live (mem : Mem) (block : BlockId) (offset : Nat) (value : Byte) :
    (mem.write block offset value).live = mem.live := rfl

@[simp] theorem owns_write {mem : Mem} {own : List BlockId} (block : BlockId) (offset : Nat)
    (value : Byte) : Owns born (mem.write block offset value) own ↔ Owns born mem own :=
  ⟨fun owns => ⟨owns.accounted, owns.grown, owns.fits⟩,
    fun owns => ⟨owns.accounted, owns.grown, owns.fits⟩⟩

theorem write_frame {mem : Mem} {own rest : List BlockId} {block : BlockId}
    (owns : Owns born mem (own ++ rest)) (member : block ∈ own) (offset : Nat) (value : Byte) :
    ∀ other ∈ rest, (mem.write block offset value).cells other = mem.cells other := by
  intro other foreign
  have apart : other ≠ block := by
    intro same
    subst same
    exact owns_apart owns member foreign
  funext index
  simp [Mem.write, Segments.store, apart]

theorem new_block_owns {mem : Mem} {own : List BlockId} (owns : Owns born mem own) :
    Ends (outOfMemory mem.live) mem.newBlock (fun result => Owns born result.2 (result.1 :: own) ∧
      result.2.cells = mem.cells ∧ result.2.live = mem.live + 1) := by
  have total := owns.accounted.length_eq
  simp only [List.length_append, List.length_range] at total
  unfold Mem.newBlock
  split
  · rename_i room
    refine ⟨⟨?_, Nat.le_succ_of_le owns.grown, room⟩, rfl, ?_⟩
    · have grown := (owns.accounted.cons mem.next).trans
        (List.perm_append_singleton mem.next (List.range mem.next)).symm
      simpa only [List.range_succ, List.cons_append] using grown
    · simp only [Mem.live]
      omega
  · rename_i full
    refine ⟨rfl, ?_⟩
    rw [Mem.live]
    omega

theorem get_owns {mem : Mem} {own : List BlockId} {held : Nat} (owns : Owns born mem own)
    (few : own.length ≤ held) : Ends (outOfMemory held) mem.get
      (fun result => Owns born result.2 (result.1 :: own) ∧ result.2.cells = mem.cells) := by
  unfold Mem.get
  split
  · rename_i block rest pooled
    refine ⟨⟨?_, owns.grown, owns.fits⟩, rfl⟩
    have accounted := owns.accounted
    rw [pooled] at accounted
    exact List.perm_middle.symm.trans accounted
  · rename_i pooled
    have fresh := new_block_owns owns
    rw [owns_live owns, pooled] at fresh
    exact ends_mono fresh (out_of_memory_mono few) (fun _ holds => ⟨holds.1, holds.2.1⟩)

theorem push_owns {mem : Mem} {own : List BlockId} {block : BlockId}
    (owns : Owns born mem (block :: own)) : Owns born (mem.push block) own := by
  unfold Mem.push
  split
  · refine ⟨?_, owns.grown, owns.fits⟩
    have moved : (own ++ mem.container ++ block :: mem.deleted).Perm _ := List.perm_middle
    refine List.Perm.trans ?_ owns.accounted
    simpa only [List.append_assoc, List.cons_append, List.nil_append] using moved
  · have fits := owns.fits
    refine ⟨?_, owns.grown, by simp only [List.length_cons]; omega⟩
    have moved : (own ++ mem.container ++ block :: mem.deleted).Perm _ := List.perm_middle
    refine List.Perm.trans ?_ owns.accounted
    simpa only [List.append_assoc, List.cons_append] using moved

@[simp] theorem push_cells (mem : Mem) (block : BlockId) : (mem.push block).cells = mem.cells := by
  unfold Mem.push
  split <;> rfl

end Npoller.MemContainer
