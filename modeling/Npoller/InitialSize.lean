import Npoller.MpscOrder

/-!
The `initial_size` of `mpsc_queue`. It is handed to the constructor of the local deque,
which holds that many value-initialised pairs from then on. Until the first pop of the
owner nothing tells such a queue from one without them.
-/

namespace Npoller.InitialSize

open SizeT StepSystem Mpsc MpscOrder

variable {θ V : Type*}

def newRun (owner : θ) (blank : θ × V) (initialSize : Nat) : Run θ V :=
  ⟨.construct owner blank initialSize, [], [], []⟩

/-- `count` value-initialised pairs before all others. -/
def pad (blank : θ × V) (count : Nat) (s : Run θ V) : Run θ V :=
  { s with q := { s.q with localQueue := List.replicate count (blank, 0) ++ s.q.localQueue } }

section Results
variable [DecidableEq θ]

/-- What a `try_pop` returns or throws. -/
def popResult (s : Run θ V) : Move θ V → Option (Except (WrongThread θ) (Option (θ × V)))
  | .push _ _ | .emplace _ => none
  | .tryPop thread => some ((s.q.tryPop thread).map (Option.map Prod.fst))

def popResults : List (Move θ V) → Run θ V →
    List (Option (Except (WrongThread θ) (Option (θ × V))))
  | [], _ => []
  | move :: moves, s => popResult s move :: ((move.run s).map (popResults moves)).getD []

def SameResults (owner : θ) (blank : θ × V) (initialSize : Nat) (moves : List (Move θ V)) : Prop :=
  popResults moves (newRun owner blank initialSize) = popResults moves (newRun owner blank 0)

def sizedSystem (owner : θ) (blank : θ × V) (initialSize : Nat) : System (Run θ V) (Move θ V) where
  init s := s = newRun owner blank initialSize
  step before move after := move.run before = some after

/-- What makes the size a hint: no result of a run depends on it, a new queue is empty
and what is popped has been pushed. -/
structure CapacityHint (owner : θ) (blank : θ × V) (initialSize : Nat) : Prop where
  same : ∀ moves, SameResults owner blank initialSize moves
  empty : (newRun owner blank initialSize).q.tryPop owner = .ok none
  pushed : ∀ s, Reachable (sizedSystem owner blank initialSize) s →
    ∀ item ∈ s.popped, item ∈ s.pushed

variable {s after : Run θ V} {owner : θ} {blank : θ × V} {count : Nat} {move : Move θ V}
  {moves : List (Move θ V)}

omit [DecidableEq θ] in
theorem new_run_pad (owner : θ) (blank : θ × V) (count : Nat) :
    newRun owner blank count = pad blank count (newRun owner blank 0) := by
  simp [newRun, pad, MpscQueue.construct]

theorem foreign_pop {thread : θ} (foreign : thread ≠ s.q.threadId) :
    s.q.tryPop thread = .error ⟨thread, s.q.threadId⟩ := if_neg foreign

theorem pad_result (quiet : move ≠ .tryPop s.q.threadId) :
    popResult (pad blank count s) move = popResult s move := by
  cases move with
  | push thread value => rfl
  | emplace thread => rfl
  | tryPop thread =>
      have foreign : thread ≠ s.q.threadId := fun own => quiet (congrArg Move.tryPop own)
      have padded : thread ≠ (pad blank count s).q.threadId := foreign
      rw [popResult, popResult, foreign_pop foreign, foreign_pop padded]
      rfl

theorem pad_run (quiet : move ≠ .tryPop s.q.threadId) :
    move.run (pad blank count s) = (move.run s).map (pad blank count) := by
  cases move with
  | push thread value =>
      by_cases own : thread = s.q.threadId
      · have padded : thread = (pad blank count s).q.threadId := own
        rw [Move.run, Move.run, if_pos own, if_pos padded, Option.map_some]
        simp only [pad, MpscQueue.pushLocal, List.append_assoc]
      · have padded : thread ≠ (pad blank count s).q.threadId := own
        rw [Move.run, Move.run, if_neg own, if_neg padded]
        by_cases busy : s.inFlight.any (fun item => item.1 = thread)
        · have paddedBusy : (pad blank count s).inFlight.any (fun item => item.1 = thread) := busy
          rw [if_pos busy, if_pos paddedBusy]
          rfl
        · have paddedFree : ¬(pad blank count s).inFlight.any (fun item => item.1 = thread) := busy
          rw [if_neg busy, if_neg paddedFree]
          rfl
  | emplace thread =>
      have same : (pad blank count s).inFlight = s.inFlight := rfl
      rw [Move.run, Move.run, same]
      cases s.inFlight.find? (fun item => item.1 = thread) with
      | none => rfl
      | some item => rfl
  | tryPop thread =>
      have foreign : thread ≠ s.q.threadId := fun own => quiet (congrArg Move.tryPop own)
      have padded : thread ≠ (pad blank count s).q.threadId := foreign
      rw [Move.run, Move.run, foreign_pop foreign, foreign_pop padded]
      rfl

theorem thread_kept (moves : move.run s = some after) : after.q.threadId = s.q.threadId := by
  cases move_steps moves with
  | pushLocal _ | fetchAdd _ _ | emplace _ | popLocal _ _ | popConcurrent _ _ | idle => rfl

theorem unpopped_same (quiet : Move.tryPop s.q.threadId ∉ moves) :
    popResults moves (pad blank count s) = popResults moves s := by
  induction moves generalizing s with
  | nil => rfl
  | cons move moves ih =>
      rw [List.mem_cons, not_or] at quiet
      have quietHere : move ≠ .tryPop s.q.threadId := fun same => quiet.1 same.symm
      rw [popResults, popResults, pad_result quietHere, pad_run quietHere]
      cases moved : move.run s with
      | none => rfl
      | some after =>
          have quietLater : Move.tryPop after.q.threadId ∉ moves := by
            rw [thread_kept moved]
            exact quiet.2
          exact congrArg _ (ih quietLater)

structure Unpopped (owner : θ) (blank : θ × V) (s : Run θ V) : Prop where
  owned : s.q.threadId = owner
  consumed : s.q.consumedIndex = npos
  flying : blank ∉ s.inFlight
  own : blank ∉ localItems s
  foreign : blank ∉ s.q.concurrentQueue

omit [DecidableEq θ] in
theorem new_unpopped (owner : θ) (blank : θ × V) : Unpopped owner blank (newRun owner blank 0) :=
  ⟨rfl, rfl, List.not_mem_nil, List.not_mem_nil, List.not_mem_nil⟩

omit [DecidableEq θ] in
theorem not_pushed {items : List (θ × V)} {item : θ × V} (earlier : blank ∉ items)
    (differs : blank ≠ item) : blank ∉ items ++ [item] := by
  rw [List.mem_append, List.mem_singleton]
  rintro (member | same)
  · exact earlier member
  · exact differs same

theorem step_unpopped (unpopped : Unpopped owner blank s) (quiet : move ≠ .tryPop owner)
    (other : move ≠ .push blank.1 blank.2) (moves : move.run s = some after) :
    Unpopped owner blank after := by
  cases move with
  | push thread value =>
      have differs : blank ≠ (thread, value) := by
        rintro rfl
        exact other rfl
      by_cases own : thread = s.q.threadId
      · rw [Move.run, if_pos own] at moves
        cases moves
        have later : blank ∉ localItems s ++ [(thread, value)] := not_pushed unpopped.own differs
        refine { unpopped with own := ?_ }
        rwa [localItems, MpscQueue.pushLocal, List.map_append]
      · rw [Move.run, if_neg own] at moves
        split at moves
        · cases moves
        · cases moves
          exact { unpopped with flying := not_pushed unpopped.flying differs }
  | emplace thread =>
      unfold Move.run at moves
      dsimp only at moves
      split at moves
      · rename_i item found
        cases moves
        have differs : blank ≠ item := by
          rintro rfl
          exact unpopped.flying (List.mem_of_find?_eq_some found)
        exact { unpopped with
          flying := fun member => unpopped.flying (List.mem_of_mem_eraseP member)
          foreign := not_pushed unpopped.foreign differs }
      · cases moves
  | tryPop thread =>
      have foreign : thread ≠ s.q.threadId := by
        rintro rfl
        exact quiet (congrArg Move.tryPop unpopped.owned)
      rw [Move.run, foreign_pop foreign] at moves
      cases moves
      exact unpopped

theorem padded_pop (unpopped : Unpopped owner blank s) (some_ : 0 < count) :
    popResult (pad blank count s) (.tryPop owner) = some (.ok (some blank)) := by
  obtain ⟨fewer, rfl⟩ := Nat.exists_eq_succ_of_ne_zero (Nat.ne_of_gt some_)
  have turn : wadd s.q.consumedIndex 1 = 0 := by
    rw [unpopped.consumed]
    simp only [wadd, npos, wordSize]
  have own : owner = (pad blank (fewer + 1) s).q.threadId := unpopped.owned.symm
  rw [popResult, MpscQueue.tryPop, if_pos own, pad, List.replicate_succ, MpscQueue.tryPopOwner]
  dsimp only [List.cons_append]
  rw [if_pos turn]
  rfl

theorem unpadded_pop (unpopped : Unpopped owner blank s) :
    popResult s (.tryPop owner) ≠ some (.ok (some blank)) := by
  have own : owner = s.q.threadId := unpopped.owned.symm
  rw [popResult, MpscQueue.tryPop, if_pos own]
  intro same
  have returned : s.q.tryPopOwner.map Prod.fst = some blank := Except.ok.inj (Option.some.inj same)
  obtain ⟨⟨item, q⟩, popped, rfl⟩ := Option.map_eq_some_iff.mp returned
  rcases try_pop_owner_cases popped with ⟨index, items, listed, _, _⟩ | ⟨items, listed, _, _⟩
  · apply unpopped.own
    rw [localItems, listed]
    exact List.mem_cons_self
  · apply unpopped.foreign
    rw [listed]
    exact List.mem_cons_self

theorem popped_differ (unpopped : Unpopped owner blank s) (some_ : 0 < count)
    (other : Move.push blank.1 blank.2 ∉ moves) (pops : Move.tryPop owner ∈ moves)
    (ran : (moves.foldlM Move.run s).isSome) :
    popResults moves (pad blank count s) ≠ popResults moves s := by
  induction moves generalizing s with
  | nil => exact absurd pops List.not_mem_nil
  | cons move moves ih =>
      rw [List.mem_cons, not_or] at other
      rw [popResults, popResults]
      intro same
      obtain ⟨head, tail⟩ := List.cons.inj same
      by_cases popsHere : move = .tryPop owner
      · subst popsHere
        rw [padded_pop unpopped some_] at head
        exact unpadded_pop unpopped head.symm
      · have popsLater : Move.tryPop owner ∈ moves := by
          rcases List.mem_cons.mp pops with here | later
          · exact absurd here.symm popsHere
          · exact later
        rw [List.foldlM_cons] at ran
        cases moved : move.run s with
        | none =>
            rw [moved] at ran
            cases ran
        | some after =>
            rw [moved] at ran tail
            have quiet : move ≠ .tryPop s.q.threadId := by
              rw [unpopped.owned]
              exact popsHere
            rw [pad_run quiet, moved] at tail
            have later := step_unpopped unpopped popsHere (fun here => other.1 here.symm) moved
            exact ih later other.2 popsLater ran tail

/-- A run in which the value-initialised item is not pushed has the same results if and
only if the size is 0 or the owner does not pop. -/
theorem same_results_iff (owner : θ) (blank : θ × V) (initialSize : Nat) {moves : List (Move θ V)}
    (other : Move.push blank.1 blank.2 ∉ moves)
    (ran : (moves.foldlM Move.run (newRun owner blank 0)).isSome) :
    SameResults owner blank initialSize moves ↔ initialSize = 0 ∨ Move.tryPop owner ∉ moves := by
  unfold SameResults
  rw [new_run_pad owner blank initialSize]
  constructor
  · intro same
    by_contra neither
    rw [not_or, not_not] at neither
    exact popped_differ (new_unpopped owner blank) (Nat.pos_of_ne_zero neither.1) other neither.2 ran
      same
  · rintro (rfl | quiet)
    · rfl
    · exact unpopped_same quiet

theorem new_queue_empty (owner : θ) (blank : θ × V) :
    (newRun owner blank 0).q.tryPop owner = .ok none := if_pos rfl

theorem zero_pops_pushed (reached : Reachable (sizedSystem owner blank 0) s) {item : θ × V}
    (popped : item ∈ s.popped) : item ∈ s.pushed := by
  have same : Reachable (queueSystem θ V) s := by
    apply simulated id _ _ reached
    · rintro _ rfl
      exact ⟨⟨owner, blank, rfl⟩, rfl, rfl, rfl⟩
    · exact fun _ move _ _ moves => ⟨move, trivial, moves⟩
  exact (run_ordered same).same.mem_iff.mpr (List.mem_append_left _ popped)

/-- The size is a hint only if it is 0: a single pop of the owner tells every other size
from it, and a run in which the value-initialised item is not pushed is told from the one
with size 0 exactly where the owner pops. -/
theorem initial_size_hint_when (owner : θ) (blank : θ × V) (initialSize : Nat) :
    (CapacityHint owner blank initialSize ↔ initialSize = 0) ∧
    ∀ moves, Move.push blank.1 blank.2 ∉ moves →
      (moves.foldlM Move.run (newRun owner blank 0)).isSome →
      (SameResults owner blank initialSize moves ↔ initialSize = 0 ∨ Move.tryPop owner ∉ moves) := by
  refine ⟨⟨?_, ?_⟩, fun moves other ran => same_results_iff owner blank initialSize other ran⟩
  · intro hint
    have ran : ([.tryPop owner].foldlM Move.run (newRun owner blank 0)).isSome := by
      rw [List.foldlM_cons, Move.run, new_queue_empty]
      rfl
    have pushesNothing : Move.push blank.1 blank.2 ∉ [Move.tryPop owner] := by simp
    have same := (same_results_iff owner blank initialSize pushesNothing ran).mp (hint.same _)
    exact same.resolve_right (fun quiet => quiet List.mem_cons_self)
  · rintro rfl
    exact ⟨fun _ => rfl, new_queue_empty owner blank, fun _ reached _ popped =>
      zero_pops_pushed reached popped⟩

theorem initial_size_hint_when_told :
    ¬SameResults (0 : Nat) ((0, 0) : Nat × Nat) 1 [.push 0 7, .tryPop 0] := by
  intro same
  have told := ((initial_size_hint_when 0 (0, 0) 1).2 [.push 0 7, .tryPop 0] (by simp)
    (by with_unfolding_all rfl)).mp same
  rcases told with zero | quiet
  · cases zero
  · exact quiet (by simp)

/-- With size 1 the owner that pushes 7 pops a 0, and the 7 is not popped at all. -/
theorem blank_popped_first :
    popResults [.push 0 7, .tryPop 0, .tryPop 0] (newRun 0 (0, 0) 1) =
      [none, some (.ok (some (0, 0))), some (.ok none)] ∧
    popResults [.push 0 7, .tryPop 0, .tryPop 0] (newRun 0 (0, 0) 0) =
      [none, some (.ok (some (0, 7))), some (.ok none)] ∧
    ¬CapacityHint 0 (0, 0) 1 := by
  have padded : popResults [.push 0 7, .tryPop 0, .tryPop 0] (newRun 0 (0, 0) 1) =
      [none, some (.ok (some (0, 0))), some (.ok none)] := by
    with_unfolding_all rfl
  have plain : popResults [.push 0 7, .tryPop 0, .tryPop 0] (newRun 0 (0, 0) 0) =
      [none, some (.ok (some (0, 7))), some (.ok none)] := by
    with_unfolding_all rfl
  refine ⟨padded, plain, ?_⟩
  intro hint
  have same := hint.same [.push 0 7, .tryPop 0, .tryPop 0]
  rw [SameResults, padded, plain] at same
  cases same

end Results

end Npoller.InitialSize
