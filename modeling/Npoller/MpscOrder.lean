import Mathlib.Data.List.Perm.Basic
import Npoller.Mpsc

/-!
What goes into the queue comes out. The local queue holds the owner's items, the
concurrent queue those of the other threads, and each is first in, first out; so
for one thread the items returned and the items still queued are, in order, the
items it pushed. The index gate plays no part in this.
-/

namespace Npoller.MpscOrder

open Mpsc StepSystem

variable {θ V : Type*} [DecidableEq θ]

def localItems (s : Run θ V) : List (θ × V) := s.q.localQueue.map Prod.fst

def queued (s : Run θ V) : List (θ × V) := localItems s ++ s.q.concurrentQueue

/-- The items of one thread. -/
def only (thread : θ) (items : List (θ × V)) : List (θ × V) :=
  items.filter (fun item => item.1 = thread)

structure Ordered (s : Run θ V) : Prop where
  own : ∀ item ∈ localItems s, item.1 = s.q.threadId
  foreign : ∀ item ∈ s.q.concurrentQueue, item.1 ≠ s.q.threadId
  flying : ∀ item ∈ s.inFlight, item.1 ≠ s.q.threadId
  order : ∀ thread, only thread s.pushed = only thread s.popped ++ only thread (queued s)
  same : s.pushed.Perm (s.popped ++ queued s)

variable {s after : Run θ V} {thread : θ}

@[simp] theorem only_append (left right : List (θ × V)) :
    only thread (left ++ right) = only thread left ++ only thread right :=
  List.filter_append ..

theorem only_none {items : List (θ × V)} (others : ∀ item ∈ items, item.1 ≠ thread) :
    only thread items = [] := by
  apply List.filter_eq_nil_iff.mpr
  intro item member
  simpa using others item member

theorem only_comm {left right : List (θ × V)}
    (apart : ∀ item ∈ left, ∀ other ∈ right, item.1 ≠ other.1) :
    only thread left ++ only thread right = only thread right ++ only thread left := by
  by_cases absent : ∀ item ∈ left, item.1 ≠ thread
  · rw [only_none absent, List.nil_append, List.append_nil]
  · have rightAbsent : ∀ other ∈ right, other.1 ≠ thread := by
      intro other member same
      apply absent
      intro item inside found
      exact apart item inside other member (found.trans same.symm)
    rw [only_none rightAbsent, List.append_nil, List.nil_append]

theorem start_ordered (owner : θ) (blank : θ × V) :
    Ordered ⟨.construct owner blank 0, [], [], []⟩ := by
  constructor
  · exact fun _ member => (List.not_mem_nil member).elim
  · exact fun _ member => (List.not_mem_nil member).elim
  · exact fun _ member => (List.not_mem_nil member).elim
  · exact fun _ => rfl
  · exact List.Perm.refl _

theorem push_local_ordered (ordered : Ordered s) (value : V) :
    Ordered { s with
      q := s.q.pushLocal (s.q.threadId, value)
      pushed := s.pushed ++ [(s.q.threadId, value)] } := by
  have grown : queued { s with
      q := s.q.pushLocal (s.q.threadId, value)
      pushed := s.pushed ++ [(s.q.threadId, value)] } =
      localItems s ++ [(s.q.threadId, value)] ++ s.q.concurrentQueue := by
    simp [queued, localItems, MpscQueue.pushLocal]
  constructor
  · intro item member
    have listed : item ∈ localItems s ++ [(s.q.threadId, value)] := by
      simpa [localItems, MpscQueue.pushLocal] using member
    rcases List.mem_append.mp listed with old | new
    · exact ordered.own item old
    · rw [List.mem_singleton.mp new]
      rfl
  · exact ordered.foreign
  · exact ordered.flying
  · intro thread
    have swap : only thread [(s.q.threadId, value)] ++ only thread s.q.concurrentQueue =
        only thread s.q.concurrentQueue ++ only thread [(s.q.threadId, value)] := by
      apply only_comm
      intro item single other member
      rw [List.mem_singleton.mp single]
      exact (ordered.foreign other member).symm
    rw [grown]
    simp only [only_append, ordered.order thread, queued, List.append_assoc, swap]
  · rw [grown]
    have moved : (queued s ++ [(s.q.threadId, value)]).Perm
        (localItems s ++ [(s.q.threadId, value)] ++ s.q.concurrentQueue) := by
      rw [queued, List.append_assoc, List.append_assoc]
      exact List.Perm.append_left _ List.perm_append_comm
    have all := ordered.same.append_right [(s.q.threadId, value)]
    rw [List.append_assoc] at all
    exact all.trans (moved.append_left s.popped)

theorem emplace_ordered {item : θ × V} {inFlight : List (θ × V)} (ordered : Ordered s)
    (taken : s.inFlight.Perm (item :: inFlight)) :
    Ordered { s with q := s.q.emplace item, inFlight, pushed := s.pushed ++ [item] } := by
  have grown : queued { s with q := s.q.emplace item, inFlight, pushed := s.pushed ++ [item] } =
      queued s ++ [item] :=
    (List.append_assoc _ _ _).symm
  constructor
  · exact ordered.own
  · intro other member
    rcases List.mem_append.mp member with old | new
    · exact ordered.foreign other old
    · rw [List.mem_singleton.mp new]
      exact ordered.flying item (taken.mem_iff.mpr List.mem_cons_self)
  · exact fun other member => ordered.flying other (taken.mem_iff.mpr (List.mem_cons_of_mem _ member))
  · intro thread
    rw [grown]
    simp only [only_append, ordered.order thread, List.append_assoc]
  · rw [grown, ← List.append_assoc]
    exact ordered.same.append_right [item]

theorem pop_local_ordered {item : θ × V} {index consumed : Nat} {items : List ((θ × V) × Nat)}
    (ordered : Ordered s) (listed : s.q.localQueue = (item, index) :: items) :
    Ordered { s with
      q := { s.q with localQueue := items, consumedIndex := consumed }
      popped := s.popped ++ [item] } := by
  have front : localItems s = item :: items.map Prod.fst := by
    rw [localItems, listed]
    rfl
  have split : queued s = [item] ++ (items.map Prod.fst ++ s.q.concurrentQueue) := by
    rw [queued, front]
    rfl
  constructor
  · intro other member
    apply ordered.own
    rw [front]
    exact List.mem_cons_of_mem _ member
  · exact ordered.foreign
  · exact ordered.flying
  · intro thread
    change only thread s.pushed = only thread (s.popped ++ [item]) ++
      only thread (items.map Prod.fst ++ s.q.concurrentQueue)
    rw [ordered.order thread, split]
    simp only [only_append, List.append_assoc]
  · have same := ordered.same
    rw [split, ← List.append_assoc] at same
    exact same

theorem pop_concurrent_ordered {item : θ × V} {consumed : Nat} {items : List (θ × V)}
    (ordered : Ordered s) (listed : s.q.concurrentQueue = item :: items) :
    Ordered { s with
      q := { s.q with concurrentQueue := items, consumedIndex := consumed }
      popped := s.popped ++ [item] } := by
  have split : queued s = localItems s ++ ([item] ++ items) := by
    rw [queued, listed]
    rfl
  have foreign := ordered.foreign
  rw [listed] at foreign
  constructor
  · exact ordered.own
  · exact fun other member => foreign other (List.mem_cons_of_mem _ member)
  · exact ordered.flying
  · intro thread
    have swap : only thread (localItems s) ++ only thread [item] =
        only thread [item] ++ only thread (localItems s) := by
      apply only_comm
      intro other member taken single
      rw [List.mem_singleton.mp single, ordered.own other member]
      exact (foreign item List.mem_cons_self).symm
    have whole : only thread s.pushed = only thread s.popped ++
        (only thread [item] ++ (only thread (localItems s) ++ only thread items)) := by
      rw [ordered.order thread, split, only_append, only_append,
        ← List.append_assoc (only thread (localItems s)), swap, List.append_assoc]
    rw [whole, only_append, List.append_assoc]
    exact congrArg _ (congrArg _ (only_append ..).symm)
  · have same := ordered.same
    rw [split] at same
    have moved : (localItems s ++ ([item] ++ items)).Perm ([item] ++ (localItems s ++ items)) := by
      have swap : (localItems s ++ [item]).Perm ([item] ++ localItems s) := List.perm_append_comm
      simpa only [List.append_assoc] using List.Perm.append_right items swap
    have all := same.trans (moved.append_left s.popped)
    rw [← List.append_assoc] at all
    exact all

theorem run_ordered (reached : Reachable (queueSystem θ V) s) : Ordered s := by
  apply queue_invariant start_ordered _ reached
  intro before after holds step
  cases step with
  | pushLocal value => exact push_local_ordered holds value
  | fetchAdd value foreign =>
      refine ⟨holds.own, holds.foreign, ?_, holds.order, holds.same⟩
      intro item member
      rcases List.mem_append.mp member with old | new
      · exact holds.flying item old
      · rw [List.mem_singleton.mp new]
        exact foreign
  | emplace taken => exact emplace_ordered holds taken
  | popLocal listed turn => exact pop_local_ordered holds listed
  | popConcurrent listed blocked => exact pop_concurrent_ordered holds listed
  | idle => exact holds

/-- In every reachable state the items whose push has completed are those returned
and those still queued, and each thread's items are returned in the order in which
that thread pushed them. -/
theorem nothing_lost_or_reordered (reached : Reachable (queueSystem θ V) s) :
    s.pushed.Perm (s.popped ++ (s.q.localQueue.map Prod.fst ++ s.q.concurrentQueue)) ∧
    ∀ thread, only thread s.pushed = only thread s.popped ++
      only thread (s.q.localQueue.map Prod.fst ++ s.q.concurrentQueue) := by
  have ordered := run_ordered reached
  exact ⟨ordered.same, ordered.order⟩

/-- Thread 1 takes its index before thread 2 and enqueues after it. -/
def overtaken : Run Nat Nat :=
  (afterMoves 0 (0, 0) [.push 1 11, .push 0 10, .push 2 12, .emplace 2, .emplace 1,
    .tryPop 0]).get (by decide +kernel)

theorem nothing_lost_or_reordered_overtaken :
    overtaken.pushed.Perm (overtaken.popped ++
      (overtaken.q.localQueue.map Prod.fst ++ overtaken.q.concurrentQueue)) ∧
    ∀ thread, only thread overtaken.pushed = only thread overtaken.popped ++
      only thread (overtaken.q.localQueue.map Prod.fst ++ overtaken.q.concurrentQueue) :=
  nothing_lost_or_reordered (moves_reachable (by decide +kernel))

end Npoller.MpscOrder
