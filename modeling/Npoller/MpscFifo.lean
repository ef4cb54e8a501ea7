import Mathlib.Data.List.Nodup
import Npoller.MpscGate
import Npoller.MpscOrder

/-!
Real-time order across the two queues. Every push carries its number, which counts
the calls, and the numbers of the pushes that had returned before it was called.
The gate lets the owner's item out once as many items are gone as lie before it;
it counts them and does not look which they are. So the order holds as long as no
thread enqueues past an older push that is stalled behind an item of the owner.
-/

namespace Npoller.MpscFifo

open SizeT Mpsc MpscGate MpscOrder StepSystem

structure Stamped (V : Type*) where
  value : V
  number : Nat
  earlier : List Nat

variable {θ V : Type*}

def numbers (items : List (θ × Stamped V)) : List Nat := items.map (fun item => item.2.number)

def stamp (s : Run θ (Stamped V)) (value : V) : Stamped V := ⟨value, begun s, numbers s.pushed⟩

def stampMove (s : Run θ (Stamped V)) : Move θ V → Move θ (Stamped V)
  | .push thread value => .push thread (stamp s value)
  | .emplace thread => .emplace thread
  | .tryPop thread => .tryPop thread

/-- No item was returned before one whose push had returned when its own was called. -/
def InOrder (s : Run θ (Stamped V)) : Prop :=
  ∀ before item after, s.popped = before ++ item :: after →
    ∀ number ∈ item.2.earlier, number ∈ numbers before

/-- `item` is not enqueued past an older push that is stalled behind an item of the owner. -/
def Passes (s : Run θ (Stamped V)) (item : θ × Stamped V) : Prop :=
  ∃ stalled ∈ s.inFlight, ∃ own ∈ localItems s,
    stalled.2.number < own.2.number ∧ own.2.number < item.2.number

/-- At most 2^64 items are queued or being pushed, so that their indices differ. -/
def InTurn (s : Run θ (Stamped V)) : Move θ V → Prop
  | .push _ _ => begun s < s.popped.length + wordSize
  | .emplace thread => ∀ item ∈ s.inFlight, item.1 = thread → ¬Passes s item
  | .tryPop _ => True

instance (s : Run θ (Stamped V)) (item : θ × Stamped V) : Decidable (Passes s item) :=
  inferInstanceAs (Decidable (∃ _ ∈ _, ∃ _ ∈ _, _ ∧ _))

instance [DecidableEq θ] (s : Run θ (Stamped V)) (move : Move θ V) : Decidable (InTurn s move) :=
  match move with
  | .push _ _ => inferInstanceAs (Decidable (_ < _))
  | .emplace _ => inferInstanceAs (Decidable (∀ _ ∈ _, _ = _ → ¬_))
  | .tryPop _ => inferInstanceAs (Decidable True)

/-- The queue with stamped pushes; the code is the same and looks at no stamp. -/
def fifoSystem (θ V : Type*) [DecidableEq θ] : System (Run θ (Stamped V)) (Move θ V) where
  init := (queueSystem θ (Stamped V)).init
  step before move after := (stampMove before move).run before = some after

variable {s after : Run θ (Stamped V)}

inductive FifoStep (s : Run θ (Stamped V)) : Run θ (Stamped V) → Prop where
  | pushLocal (value : V) (room : begun s < s.popped.length + wordSize) :
      FifoStep s { s with
        q := s.q.pushLocal (s.q.threadId, stamp s value)
        pushed := s.pushed ++ [(s.q.threadId, stamp s value)] }
  | fetchAdd (thread : θ) (value : V) (room : begun s < s.popped.length + wordSize) :
      FifoStep s { s with
        q := s.q.fetchAdd, inFlight := s.inFlight ++ [(thread, stamp s value)] }
  | emplace {item : θ × Stamped V} {inFlight : List (θ × Stamped V)}
      (taken : s.inFlight.Perm (item :: inFlight)) (inTurn : ¬Passes s item) :
      FifoStep s { s with q := s.q.emplace item, inFlight, pushed := s.pushed ++ [item] }
  | popLocal {item : θ × Stamped V} {index : Nat} {items : List ((θ × Stamped V) × Nat)}
      (listed : s.q.localQueue = (item, index) :: items)
      (turn : wadd s.q.consumedIndex 1 = index) :
      FifoStep s { s with
        q := { s.q with localQueue := items, consumedIndex := wadd s.q.consumedIndex 1 }
        popped := s.popped ++ [item] }
  | popConcurrent {item : θ × Stamped V} {items : List (θ × Stamped V)}
      (listed : s.q.concurrentQueue = item :: items)
      (blocked : ∀ front rest, s.q.localQueue = front :: rest →
        wadd s.q.consumedIndex 1 ≠ front.2) :
      FifoStep s { s with
        q := { s.q with concurrentQueue := items, consumedIndex := wadd s.q.consumedIndex 1 }
        popped := s.popped ++ [item] }
  | idle : FifoStep s s

section Steps
variable [DecidableEq θ]

theorem fifo_steps {move : Move θ V} (allowed : InTurn s move)
    (moves : (stampMove s move).run s = some after) : FifoStep s after := by
  cases move with
  | push thread value =>
      by_cases own : thread = s.q.threadId
      · rw [stampMove, Move.run, if_pos own] at moves
        cases moves
        rw [own]
        exact .pushLocal value allowed
      · rw [stampMove, Move.run, if_neg own] at moves
        split at moves
        · cases moves
        · cases moves
          exact .fetchAdd thread value allowed
  | emplace thread =>
      unfold stampMove Move.run at moves
      dsimp only at moves
      split at moves
      · rename_i item found
        cases moves
        have same : item.1 = thread := by simpa using List.find?_some found
        exact .emplace (find_erase_perm found)
          (allowed item (List.mem_of_find?_eq_some found) same)
      · cases moves
  | tryPop thread =>
      unfold stampMove Move.run MpscQueue.tryPop at moves
      dsimp only at moves
      split at moves
      · rename_i item q returned
        cases moves
        split at returned
        · rcases try_pop_owner_cases (Except.ok.inj returned) with
            ⟨index, items, listed, turn, rfl⟩ | ⟨items, listed, blocked, rfl⟩
          · exact .popLocal listed turn
          · exact .popConcurrent listed blocked
        · cases returned
      · cases moves
        exact .idle
      · cases moves
        exact .idle

theorem run_of_fifo (reached : ReachableBy (fifoSystem θ V) InTurn s) :
    Reachable (queueSystem θ (Stamped V)) s := by
  induction reached with
  | start begins => exact .start begins
  | next _ _ moves ih => exact reachable_next ih moves

end Steps

/-- The bookkeeping: numbers, indices and the gate. -/
structure Counted (s : Run θ (Stamped V)) : Prop where
  numbered : (numbers (s.pushed ++ s.inFlight)).Perm (List.range (begun s))
  room : begun s ≤ s.popped.length + wordSize
  index : s.q.index = begun s % wordSize
  consumed : wadd s.q.consumedIndex 1 = s.popped.length % wordSize
  tagged : ∀ entry ∈ s.q.localQueue, entry.2 = entry.1.2.number % wordSize
  increasing : (numbers (localItems s)).Pairwise (· < ·)
  gate : ∀ own ∈ localItems s, s.popped.length ≤ own.2.number
  known : ∀ item ∈ queued s ++ s.inFlight, ∀ number ∈ item.2.earlier,
    number ∈ numbers s.pushed ∧ number < item.2.number

@[simp] theorem numbers_append (left right : List (θ × Stamped V)) :
    numbers (left ++ right) = numbers left ++ numbers right := List.map_append

@[simp] theorem numbers_cons (item : θ × Stamped V) (items : List (θ × Stamped V)) :
    numbers (item :: items) = item.2.number :: numbers items := rfl

theorem number_listed {item : θ × Stamped V} {items : List (θ × Stamped V)}
    (member : item ∈ items) : item.2.number ∈ numbers items := List.mem_map_of_mem member

theorem wadd_mod (count : Nat) : wadd (count % wordSize) 1 = (count + 1) % wordSize := by
  rw [wadd, Nat.mod_add_mod]

theorem begun_below (counted : Counted s) {item : θ × Stamped V}
    (member : item ∈ s.pushed ++ s.inFlight) : item.2.number < begun s :=
  List.mem_range.mp (counted.numbered.mem_iff.mp (number_listed member))

theorem numbered_next {left right : List (θ × Stamped V)} {count : Nat} {item : θ × Stamped V}
    (numbered : (numbers (left ++ right)).Perm (List.range count)) (last : item.2.number = count)
    {all : List (θ × Stamped V)} (same : all.Perm ((left ++ right) ++ [item])) :
    (numbers all).Perm (List.range (count + 1)) := by
  have mapped : (numbers all).Perm (numbers (left ++ right) ++ [count]) := by
    have perm := same.map (fun item : θ × Stamped V => item.2.number)
    rw [List.map_append, List.map_cons, last] at perm
    exact perm
  rw [List.range_succ]
  exact mapped.trans (numbered.append_right [count])

theorem start_counted (owner : θ) (blank : θ × Stamped V) :
    Counted ⟨.construct owner blank 0, [], [], []⟩ := by
  constructor
  · exact List.Perm.refl _
  · exact Nat.zero_le _
  · exact (Nat.zero_mod _).symm
  · simp only [MpscQueue.construct, wadd, npos, wordSize, List.length_nil]
  · exact fun _ member => (List.not_mem_nil member).elim
  · exact List.Pairwise.nil
  · exact fun _ member => (List.not_mem_nil member).elim
  · exact fun _ member => (List.not_mem_nil member).elim

theorem local_items_pushed (s : Run θ (Stamped V)) (value : V) :
    localItems { s with
      q := s.q.pushLocal (s.q.threadId, stamp s value)
      pushed := s.pushed ++ [(s.q.threadId, stamp s value)] } =
      localItems s ++ [(s.q.threadId, stamp s value)] := by
  simp [localItems, MpscQueue.pushLocal]

theorem push_local_counted (counted : Counted s) (same : s.pushed.Perm (s.popped ++ queued s)) (value : V)
    (room : begun s < s.popped.length + wordSize) :
    Counted { s with
      q := s.q.pushLocal (s.q.threadId, stamp s value)
      pushed := s.pushed ++ [(s.q.threadId, stamp s value)] } := by
  have more : begun { s with
      q := s.q.pushLocal (s.q.threadId, stamp s value)
      pushed := s.pushed ++ [(s.q.threadId, stamp s value)] } = begun s + 1 := by
    simp only [begun, List.length_append, List.length_singleton]
    omega
  have locals := local_items_pushed s value
  -- A new number is greater than all that have been given.
  have old : ∀ item ∈ localItems s, item.2.number < begun s := by
    intro item member
    apply begun_below counted
    exact List.mem_append_left _ (same.mem_iff.mpr
      (List.mem_append_right _ (List.mem_append_left _ member)))
  constructor
  · rw [more]
    apply numbered_next counted.numbered
      (show (s.q.threadId, stamp s value).2.number = begun s from rfl)
    dsimp only
    rw [List.append_assoc, List.append_assoc]
    exact List.Perm.append_left _ List.perm_append_comm
  · rw [more]
    exact room
  · rw [more]
    change wadd s.q.index 1 = _
    rw [counted.index, wadd_mod]
  · exact counted.consumed
  · intro entry member
    rcases List.mem_append.mp member with listed | new
    · exact counted.tagged entry listed
    · rw [List.mem_singleton.mp new]
      exact counted.index
  · rw [locals, numbers_append]
    apply List.pairwise_append.mpr
    refine ⟨counted.increasing, List.pairwise_singleton _ _, ?_⟩
    intro number listed last single
    obtain ⟨item, member, rfl⟩ := List.mem_map.mp listed
    rw [List.mem_singleton.mp single]
    exact old item member
  · rw [locals]
    intro own member
    rcases List.mem_append.mp member with listed | new
    · exact counted.gate own listed
    · rw [List.mem_singleton.mp new]
      have length := same.length_eq
      rw [List.length_append] at length
      change s.popped.length ≤ s.pushed.length + s.inFlight.length
      omega
  · intro item member number inside
    have cases_ : item ∈ queued s ++ s.inFlight ∨ item = (s.q.threadId, stamp s value) := by
      simp only [queued, locals, List.mem_append, List.mem_singleton] at member ⊢
      tauto
    rcases cases_ with listed | rfl
    · obtain ⟨pushed, less⟩ := counted.known item listed number inside
      rw [numbers_append]
      exact ⟨List.mem_append_left _ pushed, less⟩
    · rw [numbers_append]
      refine ⟨List.mem_append_left _ inside, ?_⟩
      obtain ⟨other, pushed, rfl⟩ := List.mem_map.mp inside
      exact begun_below counted (List.mem_append_left _ pushed)

theorem fetch_add_counted (counted : Counted s) (thread : θ) (value : V)
    (room : begun s < s.popped.length + wordSize) :
    Counted { s with
      q := s.q.fetchAdd, inFlight := s.inFlight ++ [(thread, stamp s value)] } := by
  have more : begun { s with
      q := s.q.fetchAdd, inFlight := s.inFlight ++ [(thread, stamp s value)] } = begun s + 1 := by
    simp only [begun, List.length_append, List.length_singleton]
    omega
  constructor
  · rw [more]
    apply numbered_next counted.numbered
      (show (thread, stamp s value).2.number = begun s from rfl)
    dsimp only
    rw [List.append_assoc]
  · rw [more]
    exact room
  · rw [more]
    change wadd s.q.index 1 = _
    rw [counted.index, wadd_mod]
  · exact counted.consumed
  · exact counted.tagged
  · exact counted.increasing
  · exact counted.gate
  · intro item member number inside
    have cases_ : item ∈ queued s ++ s.inFlight ∨ item = (thread, stamp s value) := by
      rw [← List.append_assoc] at member
      rcases List.mem_append.mp member with listed | new
      · exact .inl listed
      · exact .inr (List.mem_singleton.mp new)
    rcases cases_ with listed | rfl
    · exact counted.known item listed number inside
    · refine ⟨inside, ?_⟩
      obtain ⟨other, pushed, rfl⟩ := List.mem_map.mp inside
      exact begun_below counted (List.mem_append_left _ pushed)

theorem emplace_counted {item : θ × Stamped V} {inFlight : List (θ × Stamped V)}
    (counted : Counted s) (taken : s.inFlight.Perm (item :: inFlight)) :
    Counted { s with q := s.q.emplace item, inFlight, pushed := s.pushed ++ [item] } := by
  have length := taken.length_eq
  rw [List.length_cons] at length
  have more : begun { s with q := s.q.emplace item, inFlight, pushed := s.pushed ++ [item] } =
      begun s := by
    simp only [begun, List.length_append, List.length_singleton]
    omega
  constructor
  · rw [more]
    have moved : (s.pushed ++ [item] ++ inFlight).Perm (s.pushed ++ s.inFlight) := by
      rw [List.append_assoc]
      exact taken.symm.append_left s.pushed
    exact (moved.map (fun item : θ × Stamped V => item.2.number)).trans counted.numbered
  · rw [more]
    exact counted.room
  · rw [more]
    exact counted.index
  · exact counted.consumed
  · exact counted.tagged
  · exact counted.increasing
  · exact counted.gate
  · intro other member number inside
    have listed : other ∈ queued s ++ s.inFlight := by
      have flying := taken.mem_iff (a := other)
      simp only [queued, localItems, MpscQueue.emplace, List.mem_append, List.mem_cons,
        List.not_mem_nil, or_false] at member flying ⊢
      tauto
    obtain ⟨pushed, less⟩ := counted.known other listed number inside
    rw [numbers_append]
    exact ⟨List.mem_append_left _ pushed, less⟩

theorem counted_distinct (counted : Counted s) (same : s.pushed.Perm (s.popped ++ queued s)) :
    (numbers (s.popped ++ queued s)).Nodup := by
  have all : (numbers (s.pushed ++ s.inFlight)).Nodup :=
    counted.numbered.nodup_iff.mpr List.nodup_range
  rw [numbers_append] at all
  exact (same.map _).nodup_iff.mp all.of_append_left

theorem turn_iff {item : θ × Stamped V} {index : Nat} {items : List ((θ × Stamped V) × Nat)}
    (counted : Counted s) (same : s.pushed.Perm (s.popped ++ queued s))
    (listed : s.q.localQueue = (item, index) :: items) :
    wadd s.q.consumedIndex 1 = index ↔ s.popped.length = item.2.number := by
  have entry : (item, index) ∈ s.q.localQueue := by
    rw [listed]
    exact List.mem_cons_self
  have member : item ∈ localItems s := List.mem_map_of_mem entry
  have after := counted.gate item member
  have below : item.2.number < begun s := begun_below counted
    (List.mem_append_left _ (same.mem_iff.mpr
      (List.mem_append_right _ (List.mem_append_left _ member))))
  have room := counted.room
  have tag : index = item.2.number % wordSize := counted.tagged _ entry
  rw [counted.consumed, tag]
  simp only [wordSize] at room ⊢
  omega

theorem pop_local_counted {item : θ × Stamped V} {index : Nat}
    {items : List ((θ × Stamped V) × Nat)} (counted : Counted s)
    (same : s.pushed.Perm (s.popped ++ queued s))
    (listed : s.q.localQueue = (item, index) :: items)
    (turn : wadd s.q.consumedIndex 1 = index) :
    Counted { s with
      q := { s.q with localQueue := items, consumedIndex := wadd s.q.consumedIndex 1 }
      popped := s.popped ++ [item] } := by
  have front : localItems s = item :: items.map Prod.fst := by
    rw [localItems, listed, List.map_cons]
  have increasing := counted.increasing
  rw [front, numbers_cons] at increasing
  obtain ⟨later, rest⟩ := List.pairwise_cons.mp increasing
  have now := (turn_iff counted same listed).mp turn
  constructor
  · exact counted.numbered
  · have room := counted.room
    change begun s ≤ (s.popped ++ [item]).length + wordSize
    rw [List.length_append, List.length_singleton]
    omega
  · exact counted.index
  · change wadd (wadd s.q.consumedIndex 1) 1 = (s.popped ++ [item]).length % wordSize
    rw [counted.consumed, wadd_mod, List.length_append, List.length_singleton]
  · intro entry member
    apply counted.tagged
    rw [listed]
    exact List.mem_cons_of_mem _ member
  · exact rest
  · intro own member
    have above := later own.2.number (number_listed member)
    change (s.popped ++ [item]).length ≤ own.2.number
    rw [List.length_append, List.length_singleton]
    omega
  · intro other member
    apply counted.known other
    rw [queued, front]
    exact List.mem_cons_of_mem _ member

theorem pop_concurrent_counted {item : θ × Stamped V} {items : List (θ × Stamped V)}
    (counted : Counted s) (same : s.pushed.Perm (s.popped ++ queued s))
    (listed : s.q.concurrentQueue = item :: items)
    (blocked : ∀ front rest, s.q.localQueue = front :: rest →
      wadd s.q.consumedIndex 1 ≠ front.2) :
    Counted { s with
      q := { s.q with concurrentQueue := items, consumedIndex := wadd s.q.consumedIndex 1 }
      popped := s.popped ++ [item] } := by
  constructor
  · exact counted.numbered
  · have room := counted.room
    change begun s ≤ (s.popped ++ [item]).length + wordSize
    rw [List.length_append, List.length_singleton]
    omega
  · exact counted.index
  · change wadd (wadd s.q.consumedIndex 1) 1 = (s.popped ++ [item]).length % wordSize
    rw [counted.consumed, wadd_mod, List.length_append, List.length_singleton]
  · exact counted.tagged
  · exact counted.increasing
  · intro own member
    change (s.popped ++ [item]).length ≤ own.2.number
    rw [List.length_append, List.length_singleton]
    cases locals : s.q.localQueue with
    | nil =>
        have none_ : localItems s = [] := by rw [localItems, locals, List.map_nil]
        have inside : own ∈ localItems s := member
        rw [none_] at inside
        exact (List.not_mem_nil inside).elim
    | cons front rest =>
        obtain ⟨head, index⟩ := front
        have early : s.popped.length ≠ head.2.number :=
          fun now => blocked _ _ locals ((turn_iff counted same locals).mpr now)
        have first : localItems s = head :: rest.map Prod.fst := by
          rw [localItems, locals, List.map_cons]
        have least : head.2.number ≤ own.2.number := by
          have inside : own ∈ localItems s := member
          have increasing := counted.increasing
          rw [first] at inside increasing
          rcases List.mem_cons.mp inside with rfl | behind
          · exact Nat.le_refl _
          · exact Nat.le_of_lt ((List.pairwise_cons.mp increasing).1 _ (number_listed behind))
        have gate := counted.gate head (by rw [first]; exact List.mem_cons_self)
        omega
  · intro other member
    apply counted.known other
    rw [queued, listed]
    simp only [queued, List.mem_append, List.mem_cons] at member ⊢
    tauto

theorem missing_length {values : List Nat} {bound missing : Nat} (distinct : values.Nodup)
    (below : ∀ value ∈ values, value < bound) (inside : missing < bound)
    (absent : missing ∉ values) : values.length < bound := by
  have more : (missing :: values).Nodup := List.nodup_cons.mpr ⟨absent, distinct⟩
  have subset : missing :: values ⊆ List.range bound := by
    intro value member
    rcases List.mem_cons.mp member with rfl | listed
    · exact List.mem_range.mpr inside
    · exact List.mem_range.mpr (below value listed)
  have length := (List.subperm_of_subset more subset).length_le
  rwa [List.length_cons, List.length_range] at length

theorem exists_missing {values : List Nat} {bound : Nat} (short : values.length < bound) :
    ∃ missing < bound, missing ∉ values := by
  by_contra every
  have subset : List.range bound ⊆ values := by
    intro value member
    by_contra absent
    exact every ⟨value, List.mem_range.mp member, absent⟩
  have length := (List.subperm_of_subset List.nodup_range subset).length_le
  rw [List.length_range] at length
  omega

/-- Who lies before whom in the concurrent queue, seen from the owner's items. -/
structure Lined (s : Run θ (Stamped V)) : Prop where
  behind : s.q.concurrentQueue.Pairwise (fun item later => ∀ own ∈ localItems s,
    later.2.number ∈ own.2.earlier → item.2.number < own.2.number)
  behindPopped : ∀ later ∈ s.q.concurrentQueue, ∀ own ∈ localItems s,
    later.2.number ∈ own.2.earlier → ∀ item ∈ s.popped, item.2.number < own.2.number
  landed : s.q.concurrentQueue.Pairwise (fun item later => later.2.number ∉ item.2.earlier)
  passed : s.q.concurrentQueue.Pairwise (fun item later => ∀ own ∈ localItems s,
    ¬(later.2.number < own.2.number ∧ own.2.number < item.2.number))
  stalled : ∀ item ∈ s.q.concurrentQueue, ¬Passes s item
  inOrder : InOrder s

theorem start_lined (owner : θ) (blank : θ × Stamped V) :
    Lined ⟨.construct owner blank 0, [], [], []⟩ := by
  constructor
  · exact List.Pairwise.nil
  · exact fun _ member => (List.not_mem_nil member).elim
  · exact List.Pairwise.nil
  · exact List.Pairwise.nil
  · exact fun _ member => (List.not_mem_nil member).elim
  · intro before item after same
    exact (List.append_ne_nil_of_right_ne_nil before (List.cons_ne_nil item after) same.symm).elim

theorem push_local_lined (lined : Lined s) (counted : Counted s)
    (same : s.pushed.Perm (s.popped ++ queued s)) (value : V) :
    Lined { s with
      q := s.q.pushLocal (s.q.threadId, stamp s value)
      pushed := s.pushed ++ [(s.q.threadId, stamp s value)] } := by
  have old : ∀ item ∈ s.popped ++ queued s, item.2.number < begun s := fun item member =>
    begun_below counted (List.mem_append_left _ (same.mem_iff.mpr member))
  have oldConcurrent : ∀ item ∈ s.q.concurrentQueue, item.2.number < begun s := fun item member =>
    old item (List.mem_append_right _ (List.mem_append_right _ member))
  have locals := local_items_pushed s value
  constructor
  · apply lined.behind.imp_of_mem
    intro item later member _ holds own inside returned
    rw [locals] at inside
    rcases List.mem_append.mp inside with listed | new
    · exact holds own listed returned
    · rw [List.mem_singleton.mp new]
      exact oldConcurrent item member
  · intro later member own inside returned item gone
    rw [locals] at inside
    rcases List.mem_append.mp inside with listed | new
    · exact lined.behindPopped later member own listed returned item gone
    · rw [List.mem_singleton.mp new]
      exact old item (List.mem_append_left _ gone)
  · exact lined.landed
  · apply lined.passed.imp_of_mem
    intro item later member _ holds own inside
    rw [locals] at inside
    rcases List.mem_append.mp inside with listed | new
    · exact holds own listed
    · rw [List.mem_singleton.mp new]
      exact fun between => Nat.lt_asymm between.2 (oldConcurrent item member)
  · rintro item member ⟨stalled, flying, own, inside, between⟩
    rw [locals] at inside
    rcases List.mem_append.mp inside with listed | new
    · exact lined.stalled item member ⟨stalled, flying, own, listed, between⟩
    · rw [List.mem_singleton.mp new] at between
      exact Nat.lt_asymm between.2 (oldConcurrent item member)
  · exact lined.inOrder

theorem fetch_add_lined (lined : Lined s) (counted : Counted s)
    (same : s.pushed.Perm (s.popped ++ queued s)) (thread : θ) (value : V) :
    Lined { s with
      q := s.q.fetchAdd, inFlight := s.inFlight ++ [(thread, stamp s value)] } := by
  refine ⟨lined.behind, lined.behindPopped, lined.landed, lined.passed, ?_, lined.inOrder⟩
  rintro item member ⟨stalled, flying, own, inside, between⟩
  rcases List.mem_append.mp flying with listed | new
  · exact lined.stalled item member ⟨stalled, listed, own, inside, between⟩
  · rw [List.mem_singleton.mp new] at between
    have old : own.2.number < begun s := begun_below counted (List.mem_append_left _
      (same.mem_iff.mpr (List.mem_append_right _ (List.mem_append_left _ inside))))
    exact Nat.lt_asymm between.1 old

/-- The item that is enqueued was in flight, so no call has seen it return, and it
passes nobody. -/
theorem emplace_lined {item : θ × Stamped V} {inFlight : List (θ × Stamped V)}
    (lined : Lined s) (counted : Counted s)
    (taken : s.inFlight.Perm (item :: inFlight)) (inTurn : ¬Passes s item) :
    Lined { s with q := s.q.emplace item, inFlight, pushed := s.pushed ++ [item] } := by
  have flying : item ∈ s.inFlight := taken.mem_iff.mpr List.mem_cons_self
  -- What is in flight has not returned, so no call can have counted it.
  have unseen : ∀ other ∈ queued s, item.2.number ∉ other.2.earlier := by
    intro other member seen
    have returned := (counted.known other (List.mem_append_left _ member) _ seen).1
    have distinct : (numbers (s.pushed ++ s.inFlight)).Nodup :=
      counted.numbered.nodup_iff.mpr List.nodup_range
    rw [numbers_append] at distinct
    exact List.disjoint_of_nodup_append distinct returned (number_listed flying)
  have fewer : ∀ other, Passes { s with
      q := s.q.emplace item, inFlight, pushed := s.pushed ++ [item] } other → Passes s other := by
    rintro other ⟨stalled, left, rest⟩
    exact ⟨stalled, taken.mem_iff.mpr (List.mem_cons_of_mem _ left), rest⟩
  constructor
  · apply List.pairwise_append.mpr
    refine ⟨lined.behind, List.pairwise_singleton _ _, ?_⟩
    intro other _ last single own inside returned
    rw [List.mem_singleton.mp single] at returned
    exact (unseen own (List.mem_append_left _ inside) returned).elim
  · intro later member own inside returned
    rcases List.mem_append.mp member with listed | new
    · exact lined.behindPopped later listed own inside returned
    · rw [List.mem_singleton.mp new] at returned
      exact (unseen own (List.mem_append_left _ inside) returned).elim
  · apply List.pairwise_append.mpr
    refine ⟨lined.landed, List.pairwise_singleton _ _, ?_⟩
    intro other member last single
    rw [List.mem_singleton.mp single]
    exact unseen other (List.mem_append_right _ member)
  · apply List.pairwise_append.mpr
    refine ⟨lined.passed, List.pairwise_singleton _ _, ?_⟩
    intro other member last single own inside between
    rw [List.mem_singleton.mp single] at between
    exact lined.stalled other member ⟨item, flying, own, inside, between⟩
  · intro other member passes
    rcases List.mem_append.mp member with listed | new
    · exact lined.stalled other listed (fewer other passes)
    · rw [List.mem_singleton.mp new] at passes
      exact inTurn (fewer item passes)
  · exact lined.inOrder

theorem in_order_next {items : List (θ × Stamped V)} {item : θ × Stamped V}
    (inOrder : InOrder s) (seen : ∀ number ∈ item.2.earlier, number ∈ numbers s.popped)
    {q : MpscQueue θ (θ × Stamped V)} (same : items = s.popped ++ [item]) :
    InOrder { s with q, popped := items } := by
  intro before other after split number inside
  rcases List.eq_nil_or_concat after with none_ | ⟨rest, last, some_⟩
  · have ends : s.popped = before ∧ item = other := by
      rw [same, none_] at split
      exact ⟨(List.append_inj' split rfl).1, List.singleton_inj.mp (List.append_inj' split rfl).2⟩
    rw [← ends.1]
    rw [← ends.2] at inside
    exact seen number inside
  · have ends : s.popped = before ++ other :: rest := by
      rw [same, some_, List.concat_eq_append, ← List.cons_append, ← List.append_assoc] at split
      exact (List.append_inj' split rfl).1
    exact inOrder before other rest ends number inside

theorem pop_local_lined {item : θ × Stamped V} {index : Nat}
    {items : List ((θ × Stamped V) × Nat)} (lined : Lined s) (counted : Counted s)
    (same : s.pushed.Perm (s.popped ++ queued s))
    (listed : s.q.localQueue = (item, index) :: items)
    (turn : wadd s.q.consumedIndex 1 = index) :
    Lined { s with
      q := { s.q with localQueue := items, consumedIndex := wadd s.q.consumedIndex 1 }
      popped := s.popped ++ [item] } := by
  have front : localItems s = item :: items.map Prod.fst := by
    rw [localItems, listed, List.map_cons]
  have member : item ∈ localItems s := by
    rw [front]
    exact List.mem_cons_self
  have left : ∀ own ∈ items.map Prod.fst, own ∈ localItems s := by
    intro own inside
    rw [front]
    exact List.mem_cons_of_mem _ inside
  have increasing := counted.increasing
  rw [front, numbers_cons] at increasing
  have later := (List.pairwise_cons.mp increasing).1
  have now := (turn_iff counted same listed).mp turn
  have distinct := counted_distinct counted same
  rw [numbers_append] at distinct
  have seen : ∀ number ∈ item.2.earlier, number ∈ numbers s.popped := by
    intro number inside
    by_contra absent
    obtain ⟨returned, less⟩ :=
      counted.known item (List.mem_append_left _ (List.mem_append_left _ member)) number inside
    obtain ⟨other, pushed, rfl⟩ := List.mem_map.mp returned
    rcases List.mem_append.mp (same.mem_iff.mp pushed) with gone | waiting
    · exact absent (number_listed gone)
    · rcases List.mem_append.mp waiting with own | concurrent
      · rw [front] at own
        rcases List.mem_cons.mp own with rfl | behind
        · exact Nat.lt_irrefl _ less
        · exact Nat.lt_asymm less (later _ (number_listed behind))
      -- The gate has counted as many items as lie before this one; all of them have smaller
      -- numbers, so the one that is absent would make them too few.
      · have below : ∀ value ∈ numbers s.popped, value < item.2.number := by
          intro value popped
          obtain ⟨first, gone, rfl⟩ := List.mem_map.mp popped
          exact lined.behindPopped other concurrent item member inside first gone
        have short := missing_length distinct.of_append_left below less absent
        rw [numbers, List.length_map] at short
        omega
  constructor
  · exact lined.behind.imp (fun holds own inside => holds own (left own inside))
  · intro last concurrent own inside returned gone popped
    rcases List.mem_append.mp popped with old | new
    · exact lined.behindPopped last concurrent own (left own inside) returned gone old
    · rw [List.mem_singleton.mp new]
      exact later _ (number_listed inside)
  · exact lined.landed
  · exact lined.passed.imp (fun holds own inside => holds own (left own inside))
  · rintro other concurrent ⟨stalled, flying, own, inside, between⟩
    exact lined.stalled other concurrent ⟨stalled, flying, own, left own inside, between⟩
  · exact in_order_next lined.inOrder seen rfl

/-- While the owner's front waits, some smaller number is missing among those gone;
the item in the way is queued behind `item` or still stalled. -/
theorem no_own_before {item own : θ × Stamped V} {items : List (θ × Stamped V)}
    (lined : Lined s) (counted : Counted s) (same : s.pushed.Perm (s.popped ++ queued s))
    (listed : s.q.concurrentQueue = item :: items)
    (blocked : ∀ front rest, s.q.localQueue = front :: rest →
      wadd s.q.consumedIndex 1 ≠ front.2) (inside : own ∈ localItems s) :
    ¬own.2.number < item.2.number := by
  intro less
  cases locals : s.q.localQueue with
  | nil =>
      rw [localItems, locals, List.map_nil] at inside
      exact (List.not_mem_nil inside).elim
  | cons front rest =>
      obtain ⟨head, index⟩ := front
      have first : localItems s = head :: rest.map Prod.fst := by
        rw [localItems, locals, List.map_cons]
      have member : head ∈ localItems s := by
        rw [first]
        exact List.mem_cons_self
      have least : ∀ other ∈ localItems s, head.2.number ≤ other.2.number := by
        intro other listed
        have increasing := counted.increasing
        rw [first] at listed increasing
        rcases List.mem_cons.mp listed with rfl | behind
        · exact Nat.le_refl _
        · exact Nat.le_of_lt ((List.pairwise_cons.mp increasing).1 _ (number_listed behind))
      have early : s.popped.length ≠ head.2.number :=
        fun now => blocked _ _ locals ((turn_iff counted same locals).mpr now)
      have gate := counted.gate head member
      have short : (numbers s.popped).length < head.2.number := by
        rw [numbers, List.length_map]
        omega
      -- Fewer items are gone than have smaller numbers than the front, so one of those is left.
      obtain ⟨missing, small, absent⟩ := exists_missing short
      have headFirst : head.2.number < item.2.number := Nat.lt_of_le_of_lt (least own inside) less
      have headBegun : head.2.number < begun s := begun_below counted (List.mem_append_left _
        (same.mem_iff.mpr (List.mem_append_right _ (List.mem_append_left _ member))))
      have numbered : missing ∈ numbers (s.pushed ++ s.inFlight) :=
        counted.numbered.mem_iff.mpr (List.mem_range.mpr (Nat.lt_trans small headBegun))
      obtain ⟨other, placed, rfl⟩ := List.mem_map.mp numbered
      rcases List.mem_append.mp placed with pushed | flying
      · rcases List.mem_append.mp (same.mem_iff.mp pushed) with gone | waiting
        · exact absent (number_listed gone)
        · rcases List.mem_append.mp waiting with local_ | concurrent
          · exact Nat.not_lt_of_le (least other local_) small
          · rw [listed] at concurrent
            rcases List.mem_cons.mp concurrent with rfl | behind
            · exact Nat.lt_asymm small headFirst
            -- It is queued behind `item`, which has passed it.
            · have passed := lined.passed
              rw [listed] at passed
              exact (List.pairwise_cons.mp passed).1 other behind head member ⟨small, headFirst⟩
      -- It is stalled, and `item` has passed it when it was enqueued.
      · apply lined.stalled item (by rw [listed]; exact List.mem_cons_self)
        exact ⟨other, flying, head, member, small, headFirst⟩

theorem pop_concurrent_lined {item : θ × Stamped V} {items : List (θ × Stamped V)}
    (lined : Lined s) (counted : Counted s) (same : s.pushed.Perm (s.popped ++ queued s))
    (listed : s.q.concurrentQueue = item :: items)
    (blocked : ∀ front rest, s.q.localQueue = front :: rest →
      wadd s.q.consumedIndex 1 ≠ front.2) :
    Lined { s with
      q := { s.q with concurrentQueue := items, consumedIndex := wadd s.q.consumedIndex 1 }
      popped := s.popped ++ [item] } := by
  have member : item ∈ s.q.concurrentQueue := by
    rw [listed]
    exact List.mem_cons_self
  have left : ∀ other ∈ items, other ∈ s.q.concurrentQueue := by
    intro other inside
    rw [listed]
    exact List.mem_cons_of_mem _ inside
  have behind := lined.behind
  have landed := lined.landed
  have passed := lined.passed
  rw [listed] at behind landed passed
  have seen : ∀ number ∈ item.2.earlier, number ∈ numbers s.popped := by
    intro number inside
    obtain ⟨returned, less⟩ :=
      counted.known item (List.mem_append_left _ (List.mem_append_right _ member)) number inside
    obtain ⟨other, pushed, rfl⟩ := List.mem_map.mp returned
    rcases List.mem_append.mp (same.mem_iff.mp pushed) with gone | waiting
    · exact number_listed gone
    · rcases List.mem_append.mp waiting with own | concurrent
      · exact (no_own_before lined counted same listed blocked own less).elim
      · rw [listed] at concurrent
        rcases List.mem_cons.mp concurrent with rfl | later
        · exact (Nat.lt_irrefl _ less).elim
        · exact ((List.pairwise_cons.mp landed).1 other later inside).elim
  constructor
  · exact (List.pairwise_cons.mp behind).2
  · intro last concurrent own inside returned gone popped
    rcases List.mem_append.mp popped with old | new
    · exact lined.behindPopped last (left last concurrent) own inside returned gone old
    · rw [List.mem_singleton.mp new]
      exact (List.pairwise_cons.mp behind).1 last concurrent own inside returned
  · exact (List.pairwise_cons.mp landed).2
  · exact (List.pairwise_cons.mp passed).2
  · exact fun other inside => lined.stalled other (left other inside)
  · exact in_order_next lined.inOrder seen rfl

section Runs
variable [DecidableEq θ]

/-- In a run in which no thread enqueues past an older push that is stalled behind
an item of the owner, and at most 2^64 items are in the queue at one time, no item
is returned before one whose push had returned when its own was called. -/
theorem real_time_order (reached : ReachableBy (fifoSystem θ V) InTurn s) : InOrder s := by
  have kept : Counted s ∧ Lined s := by
    induction reached with
    | start begins =>
        rename_i state
        obtain ⟨q, inFlight, pushed, popped⟩ := state
        obtain ⟨⟨owner, blank, rfl⟩, rfl, rfl, rfl⟩ := begins
        exact ⟨start_counted owner blank, start_lined owner blank⟩
    | next reached meets moves ih =>
        obtain ⟨counted, lined⟩ := ih
        have same := (run_ordered (run_of_fifo reached)).same
        cases fifo_steps meets moves with
        | pushLocal value room =>
            exact ⟨push_local_counted counted same value room,
              push_local_lined lined counted same value⟩
        | fetchAdd thread value room =>
            exact ⟨fetch_add_counted counted thread value room,
              fetch_add_lined lined counted same thread value⟩
        | emplace taken inTurn =>
            exact ⟨emplace_counted counted taken, emplace_lined lined counted taken inTurn⟩
        | popLocal listed turn =>
            exact ⟨pop_local_counted counted same listed turn,
              pop_local_lined lined counted same listed turn⟩
        | popConcurrent listed blocked =>
            exact ⟨pop_concurrent_counted counted same listed blocked,
              pop_concurrent_lined lined counted same listed blocked⟩
        | idle => exact ⟨counted, lined⟩
  exact kept.2.inOrder

def afterStamped (allowed : Run θ (Stamped V) → Move θ V → Prop) [∀ s move, Decidable (allowed s move)]
    (owner : θ) (blank : θ × Stamped V) (moves : List (Move θ V)) : Option (Run θ (Stamped V)) :=
  moves.foldlM (fun s move => if allowed s move then (stampMove s move).run s else none)
    ⟨.construct owner blank 0, [], [], []⟩

theorem stamped_reachable {allowed : Run θ (Stamped V) → Move θ V → Prop}
    [∀ s move, Decidable (allowed s move)] {owner : θ} {blank : θ × Stamped V}
    {moves : List (Move θ V)} (ran : (afterStamped allowed owner blank moves).isSome) :
    ReachableBy (fifoSystem θ V) allowed ((afterStamped allowed owner blank moves).get ran) := by
  have begins : (fifoSystem θ V).init ⟨.construct owner blank 0, [], [], []⟩ :=
    ⟨⟨owner, blank, rfl⟩, rfl, rfl, rfl⟩
  exact guarded_reachable (fun _ _ _ moved => moved) (.start begins) (Option.some_get ran).symm

end Runs

/-- Thread 1 is stalled with number 0, the owner has pushed number 1, and thread 2
calls its push of number 2 after that. -/
def stalledFirst : List (Move Nat Nat) := [.push 1 11, .push 0 10, .push 2 12]

def inTurn : Run Nat (Stamped Nat) :=
  (afterStamped InTurn 0 (0, ⟨0, 0, []⟩)
    (stalledFirst ++ [.emplace 1, .emplace 2, .tryPop 0, .tryPop 0, .tryPop 0])).get
    (by decide +kernel)

theorem real_time_order_in_turn : InOrder inTurn :=
  real_time_order (stamped_reachable (by decide +kernel))

def outOfTurn : Run Nat (Stamped Nat) :=
  (afterStamped (fun _ _ => True) 0 (0, ⟨0, 0, []⟩)
    (stalledFirst ++ [.emplace 2, .tryPop 0])).get (by decide +kernel)

theorem owner_item_overtaken : Reachable (fifoSystem Nat Nat) outOfTurn ∧ ¬InOrder outOfTurn := by
  refine ⟨stamped_reachable (by decide +kernel), ?_⟩
  intro inOrder
  have first : outOfTurn.popped = [] ++ (2, ⟨12, 2, [1]⟩) :: [] := by with_unfolding_all rfl
  exact List.not_mem_nil (inOrder [] _ [] first 1 List.mem_cons_self)

end Npoller.MpscFifo
