import Mathlib.Data.List.Basic
import Npoller.SizeT
import Npoller.StepSystem

/-!
`queue/mpsc_queue.h`: a queue with one owner thread that pushes and pops, and any
number of other threads that push. A push of another thread is two steps, the
`fetch_add` on `index` and the `emplace`; everything the owner does between two
accesses to shared state touches only its own fields and is one step. The TBB
queue is a first-in first-out list. Items carry the thread that pushed them.
-/

namespace Npoller.Mpsc

open SizeT StepSystem

variable {θ V T : Type*}

/-- `localQueue` holds each item with its index. -/
structure MpscQueue (θ T : Type*) where
  index : Nat
  localQueue : List (T × Nat)
  threadId : θ
  consumedIndex : Nat
  concurrentQueue : List T

/-- `local_queue(initial_size)` holds that many value-initialised pairs. -/
def MpscQueue.construct (threadId : θ) (blank : T) (initialSize : Nat) : MpscQueue θ T :=
  { index := 0
    localQueue := List.replicate initialSize (blank, 0)
    threadId
    consumedIndex := npos
    concurrentQueue := [] }

/-- `push` on the owner thread. -/
def MpscQueue.pushLocal (source : T) (q : MpscQueue θ T) : MpscQueue θ T :=
  { q with index := wadd q.index 1, localQueue := q.localQueue ++ [(source, q.index)] }

/-- The two steps of `push` on another thread. -/
def MpscQueue.fetchAdd (q : MpscQueue θ T) : MpscQueue θ T := { q with index := wadd q.index 1 }

def MpscQueue.emplace (source : T) (q : MpscQueue θ T) : MpscQueue θ T :=
  { q with concurrentQueue := q.concurrentQueue ++ [source] }

/-- The `std::runtime_error` for a pop on another thread. -/
structure WrongThread (θ : Type*) where
  thread : θ
  master : θ

def MpscQueue.tryPopConcurrent (q : MpscQueue θ T) : Option (T × MpscQueue θ T) :=
  match q.concurrentQueue with
  | item :: items => some (item, { q with
      concurrentQueue := items, consumedIndex := wadd q.consumedIndex 1 })
  | [] => none

def MpscQueue.tryPopOwner (q : MpscQueue θ T) : Option (T × MpscQueue θ T) :=
  match q.localQueue with
  | (item, index) :: items =>
      if wadd q.consumedIndex 1 = index then
        some (item, { q with localQueue := items, consumedIndex := wadd q.consumedIndex 1 })
      else q.tryPopConcurrent
  | [] => q.tryPopConcurrent

/-- `none` is the return value `false`, which leaves the queue as it is. -/
def MpscQueue.tryPop [DecidableEq θ] (thread : θ) (q : MpscQueue θ T) :
    Except (WrongThread θ) (Option (T × MpscQueue θ T)) :=
  if thread = q.threadId then .ok q.tryPopOwner else .error ⟨thread, q.threadId⟩

/-- A run of the queue. `inFlight` are the pushes that have taken an index and
have not enqueued; `pushed` and `popped` are the completed pushes and the items
returned, in order. -/
structure Run (θ V : Type*) where
  q : MpscQueue θ (θ × V)
  inFlight : List (θ × V)
  pushed : List (θ × V)
  popped : List (θ × V)

inductive Move (θ V : Type*) where
  | push (thread : θ) (value : V)
  | emplace (thread : θ)
  | tryPop (thread : θ)

section Moves
variable [DecidableEq θ]

/-- A thread pushes one item at a time. -/
def Move.run (s : Run θ V) : Move θ V → Option (Run θ V)
  | .push thread value =>
      if thread = s.q.threadId then
        some { s with q := s.q.pushLocal (thread, value), pushed := s.pushed ++ [(thread, value)] }
      else if s.inFlight.any (fun item => item.1 = thread) then none
      else some { s with q := s.q.fetchAdd, inFlight := s.inFlight ++ [(thread, value)] }
  | .emplace thread =>
      match s.inFlight.find? (fun item => item.1 = thread) with
      | some item => some { s with
          q := s.q.emplace item
          inFlight := s.inFlight.eraseP (fun item => item.1 = thread)
          pushed := s.pushed ++ [item] }
      | none => none
  | .tryPop thread =>
      match s.q.tryPop thread with
      | .ok (some (item, q)) => some { s with q, popped := s.popped ++ [item] }
      | .ok none | .error _ => some s

/-- The queue starts empty: `initial_size` is 0. -/
def queueSystem (θ V : Type*) [DecidableEq θ] : System (Run θ V) (Move θ V) where
  init s := (∃ owner blank, s.q = .construct owner blank 0) ∧
    s.inFlight = [] ∧ s.pushed = [] ∧ s.popped = []
  step before move after := move.run before = some after

variable {s after : Run θ V}

inductive QueueStep (s : Run θ V) : Run θ V → Prop where
  | pushLocal (value : V) : QueueStep s { s with
      q := s.q.pushLocal (s.q.threadId, value)
      pushed := s.pushed ++ [(s.q.threadId, value)] }
  | fetchAdd {thread : θ} (value : V) (foreign : thread ≠ s.q.threadId) :
      QueueStep s { s with q := s.q.fetchAdd, inFlight := s.inFlight ++ [(thread, value)] }
  | emplace {item : θ × V} {inFlight : List (θ × V)} (taken : s.inFlight.Perm (item :: inFlight)) :
      QueueStep s { s with
        q := s.q.emplace item, inFlight, pushed := s.pushed ++ [item] }
  | popLocal {item : θ × V} {index : Nat} {items : List ((θ × V) × Nat)}
      (listed : s.q.localQueue = (item, index) :: items)
      (turn : wadd s.q.consumedIndex 1 = index) :
      QueueStep s { s with
        q := { s.q with localQueue := items, consumedIndex := wadd s.q.consumedIndex 1 }
        popped := s.popped ++ [item] }
  | popConcurrent {item : θ × V} {items : List (θ × V)}
      (listed : s.q.concurrentQueue = item :: items)
      (blocked : ∀ front rest, s.q.localQueue = front :: rest →
        wadd s.q.consumedIndex 1 ≠ front.2) :
      QueueStep s { s with
        q := { s.q with concurrentQueue := items, consumedIndex := wadd s.q.consumedIndex 1 }
        popped := s.popped ++ [item] }
  | idle : QueueStep s s

theorem find_erase_perm {α : Type*} {found : α → Bool} {entry : α} {entries : List α}
    (first : entries.find? found = some entry) :
    entries.Perm (entry :: entries.eraseP found) := by
  induction entries with
  | nil => cases first
  | cons head entries ih =>
      cases hit : found head with
      | true =>
          rw [List.find?_cons_of_pos hit] at first
          cases first
          rw [List.eraseP_cons_of_pos hit]
      | false =>
          have miss : ¬found head = true := by
            rw [hit]
            exact Bool.false_ne_true
          rw [List.find?_cons_of_neg miss] at first
          rw [List.eraseP_cons_of_neg miss]
          exact ((ih first).cons head).trans (List.Perm.swap ..)

omit [DecidableEq θ] in
theorem try_pop_owner_cases {item : T} {queue q : MpscQueue θ T}
    (returned : queue.tryPopOwner = some (item, q)) :
    (∃ index items, queue.localQueue = (item, index) :: items ∧ wadd queue.consumedIndex 1 = index ∧
      q = { queue with localQueue := items, consumedIndex := wadd queue.consumedIndex 1 }) ∨
    (∃ items, queue.concurrentQueue = item :: items ∧
      (∀ front rest, queue.localQueue = front :: rest → wadd queue.consumedIndex 1 ≠ front.2) ∧
      q = { queue with concurrentQueue := items, consumedIndex := wadd queue.consumedIndex 1 }) := by
  have concurrent (blocked : ∀ front rest, queue.localQueue = front :: rest →
      wadd queue.consumedIndex 1 ≠ front.2) (popped : queue.tryPopConcurrent = some (item, q)) :
      ∃ items, queue.concurrentQueue = item :: items ∧
        (∀ front rest, queue.localQueue = front :: rest → wadd queue.consumedIndex 1 ≠ front.2) ∧
        q = { queue with concurrentQueue := items, consumedIndex := wadd queue.consumedIndex 1 } := by
    unfold MpscQueue.tryPopConcurrent at popped
    split at popped
    · rename_i listed
      cases popped
      exact ⟨_, listed, blocked, rfl⟩
    · cases popped
  unfold MpscQueue.tryPopOwner at returned
  split at returned
  · rename_i listed
    split at returned
    · rename_i turn
      cases returned
      exact .inl ⟨_, _, listed, turn, rfl⟩
    · rename_i early
      apply Or.inr (concurrent _ returned)
      intro front rest same
      rw [listed] at same
      cases same
      exact early
  · rename_i listed
    apply Or.inr (concurrent _ returned)
    intro front rest same
    rw [listed] at same
    cases same

omit [DecidableEq θ] in
theorem try_pop_owner_steps {item : θ × V} {q : MpscQueue θ (θ × V)}
    (returned : s.q.tryPopOwner = some (item, q)) :
    QueueStep s { s with q, popped := s.popped ++ [item] } := by
  rcases try_pop_owner_cases returned with ⟨index, items, listed, turn, rfl⟩ | ⟨items, listed, blocked, rfl⟩
  · exact .popLocal listed turn
  · exact .popConcurrent listed blocked

theorem move_steps {move : Move θ V} (moves : move.run s = some after) : QueueStep s after := by
  cases move with
  | push thread value =>
      by_cases own : thread = s.q.threadId
      · rw [Move.run, if_pos own] at moves
        cases moves
        rw [own]
        exact .pushLocal value
      · rw [Move.run, if_neg own] at moves
        split at moves
        · cases moves
        · cases moves
          exact .fetchAdd value own
  | emplace thread =>
      unfold Move.run at moves
      dsimp only at moves
      split at moves
      · rename_i item found
        cases moves
        exact .emplace (find_erase_perm found)
      · cases moves
  | tryPop thread =>
      unfold Move.run at moves
      dsimp only at moves
      split at moves
      · rename_i item q returned
        cases moves
        unfold MpscQueue.tryPop at returned
        split at returned
        · exact try_pop_owner_steps (Except.ok.inj returned)
        · cases returned
      · cases moves
        exact .idle
      · cases moves
        exact .idle

theorem queue_invariant {inv : Run θ V → Prop}
    (starts : ∀ owner blank, inv ⟨.construct owner blank 0, [], [], []⟩)
    (keeps : ∀ before after, inv before → QueueStep before after → inv after)
    {state : Run θ V} (reached : Reachable (queueSystem θ V) state) : inv state := by
  apply invariant _ _ reached
  · rintro ⟨q, inFlight, pushed, popped⟩ ⟨⟨owner, blank, rfl⟩, rfl, rfl, rfl⟩
    exact starts owner blank
  · exact fun before _ after holds _ moves => keeps before after holds (move_steps moves)

def afterMoves (owner : θ) (blank : θ × V) (moves : List (Move θ V)) : Option (Run θ V) :=
  moves.foldlM Move.run ⟨.construct owner blank 0, [], [], []⟩

theorem moves_reachable {owner : θ} {blank : θ × V} {moves : List (Move θ V)}
    (ran : (afterMoves owner blank moves).isSome) :
    Reachable (queueSystem θ V) ((afterMoves owner blank moves).get ran) :=
  fold_reachable (fun _ _ _ moved => ⟨trivial, moved⟩) (.start ⟨⟨owner, blank, rfl⟩, rfl, rfl, rfl⟩)
    (Option.some_get ran).symm

end Moves

end Npoller.Mpsc
