import Npoller.Mpsc

/-!
The index gate of the queue. `consumed_index + 1` is the number of items returned
so far. It never passes the index of the local front, because an item of the
concurrent queue is taken only while the front's turn has not come. The indices
of the local items lie strictly increasing between that number and the number of
indices handed out; so where nothing is in flight and nothing in the concurrent
queue, they are all of these and it is the front's turn.
-/

namespace Npoller.MpscGate

open SizeT Mpsc StepSystem

variable {θ V : Type*}

/-- The number of pushes begun. -/
def begun (s : Run θ V) : Nat := s.pushed.length + s.inFlight.length

def indices (s : Run θ V) : List Nat := s.q.localQueue.map Prod.snd

/-- The number of items queued. -/
def held (s : Run θ V) : Nat := s.q.localQueue.length + s.q.concurrentQueue.length

structure Gate (s : Run θ V) : Prop where
  count : s.popped.length + held s = s.pushed.length
  index : s.q.index = begun s
  consumed : wadd s.q.consumedIndex 1 = s.popped.length
  increasing : (indices s).Pairwise (· < ·)
  below : ∀ index ∈ indices s, s.popped.length ≤ index ∧ index < begun s

variable {s after : Run θ V}

theorem increasing_length {values : List Nat} {low high : Nat}
    (increasing : values.Pairwise (· < ·)) (between : ∀ value ∈ values, low ≤ value ∧ value < high)
    (order : low ≤ high) : values.length ≤ high - low := by
  induction values generalizing low with
  | nil => exact Nat.zero_le _
  | cons value values ih =>
      obtain ⟨later, rest⟩ := List.pairwise_cons.mp increasing
      obtain ⟨above, under⟩ := between value List.mem_cons_self
      have shorter : values.length ≤ high - (value + 1) := by
        apply ih rest _ under
        intro other member
        exact ⟨later other member, (between other (List.mem_cons_of_mem _ member)).2⟩
      rw [List.length_cons]
      omega

theorem start_gate (owner : θ) (blank : θ × V) :
    Gate ⟨.construct owner blank 0, [], [], []⟩ := by
  constructor
  · rfl
  · rfl
  · simp only [MpscQueue.construct, wadd, npos, wordSize]
    rfl
  · exact List.Pairwise.nil
  · exact fun _ member => (List.not_mem_nil member).elim

theorem wadd_one {count : Nat} (few : count + 1 < wordSize) : wadd count 1 = count + 1 :=
  wadd_exact few

theorem popped_begun (gate : Gate s) : s.popped.length ≤ begun s := by
  have count := gate.count
  unfold begun
  omega

theorem push_local_gate (gate : Gate s) (value : V) (few : begun s + 1 < wordSize) :
    Gate { s with
      q := s.q.pushLocal (s.q.threadId, value)
      pushed := s.pushed ++ [(s.q.threadId, value)] } := by
  have count := gate.count
  have room := popped_begun gate
  have more : begun { s with
      q := s.q.pushLocal (s.q.threadId, value)
      pushed := s.pushed ++ [(s.q.threadId, value)] } = begun s + 1 := by
    simp only [begun, List.length_append, List.length_singleton]
    omega
  have listed : indices { s with
      q := s.q.pushLocal (s.q.threadId, value)
      pushed := s.pushed ++ [(s.q.threadId, value)] } = indices s ++ [begun s] := by
    simp [indices, MpscQueue.pushLocal, gate.index]
  constructor
  · simp only [held, MpscQueue.pushLocal, List.length_append, List.length_singleton] at count ⊢
    omega
  · rw [more]
    exact (congrArg (wadd · 1) gate.index).trans (wadd_one few)
  · exact gate.consumed
  · rw [listed]
    exact List.pairwise_append.mpr ⟨gate.increasing, List.pairwise_singleton _ _, by
      intro index old last new
      rw [List.mem_singleton.mp new]
      exact (gate.below index old).2⟩
  · rw [listed, more]
    intro index member
    rcases List.mem_append.mp member with old | new
    · exact ⟨(gate.below index old).1, Nat.lt_succ_of_lt (gate.below index old).2⟩
    · rw [List.mem_singleton.mp new]
      exact ⟨room, Nat.lt_succ_self _⟩

theorem fetch_add_gate {item : θ × V} (gate : Gate s) (few : begun s + 1 < wordSize) :
    Gate { s with q := s.q.fetchAdd, inFlight := s.inFlight ++ [item] } := by
  have more : begun { s with q := s.q.fetchAdd, inFlight := s.inFlight ++ [item] } = begun s + 1 := by
    simp only [begun, List.length_append, List.length_singleton]
    omega
  constructor
  · exact gate.count
  · rw [more]
    exact (congrArg (wadd · 1) gate.index).trans (wadd_one few)
  · exact gate.consumed
  · exact gate.increasing
  · rw [more]
    exact fun index member =>
      ⟨(gate.below index member).1, Nat.lt_succ_of_lt (gate.below index member).2⟩

theorem emplace_gate {item : θ × V} {inFlight : List (θ × V)} (gate : Gate s)
    (taken : s.inFlight.Perm (item :: inFlight)) :
    Gate { s with q := s.q.emplace item, inFlight, pushed := s.pushed ++ [item] } := by
  have count := gate.count
  have length := taken.length_eq
  rw [List.length_cons] at length
  have same : begun { s with q := s.q.emplace item, inFlight, pushed := s.pushed ++ [item] } =
      begun s := by
    simp only [begun, List.length_append, List.length_singleton]
    omega
  constructor
  · simp only [held, MpscQueue.emplace, List.length_append, List.length_singleton] at count ⊢
    omega
  · rw [same]
    exact gate.index
  · exact gate.consumed
  · exact gate.increasing
  · rw [same]
    exact gate.below

theorem consumed_next (gate : Gate s) (few : begun s < wordSize) (some_ : 0 < held s) :
    wadd (wadd s.q.consumedIndex 1) 1 = s.popped.length + 1 := by
  have count := gate.count
  rw [gate.consumed]
  apply wadd_one
  unfold begun at few
  omega

theorem pop_local_gate {item : θ × V} {index : Nat} {items : List ((θ × V) × Nat)} (gate : Gate s)
    (few : begun s < wordSize) (listed : s.q.localQueue = (item, index) :: items)
    (turn : wadd s.q.consumedIndex 1 = index) :
    Gate { s with
      q := { s.q with localQueue := items, consumedIndex := wadd s.q.consumedIndex 1 }
      popped := s.popped ++ [item] } := by
  have shape : indices s = index :: items.map Prod.snd := by
    rw [indices, listed]
    rfl
  have length : s.q.localQueue.length = items.length + 1 := by
    rw [listed, List.length_cons]
  have count := gate.count
  have increasing := gate.increasing
  rw [shape] at increasing
  obtain ⟨later, rest⟩ := List.pairwise_cons.mp increasing
  have next := consumed_next gate few (by unfold held; omega)
  have front : index = s.popped.length := turn.symm.trans gate.consumed
  constructor
  · simp only [held, List.length_append, List.length_singleton] at count ⊢
    omega
  · exact gate.index
  · rw [List.length_append, List.length_singleton]
    exact next
  · exact rest
  · intro other member
    rw [List.length_append, List.length_singleton]
    refine ⟨?_, (gate.below other (by rw [shape]; exact List.mem_cons_of_mem _ member)).2⟩
    rw [← front]
    exact later other member

theorem pop_concurrent_gate {item : θ × V} {items : List (θ × V)} (gate : Gate s)
    (few : begun s < wordSize) (listed : s.q.concurrentQueue = item :: items)
    (blocked : ∀ front rest, s.q.localQueue = front :: rest →
      wadd s.q.consumedIndex 1 ≠ front.2) :
    Gate { s with
      q := { s.q with concurrentQueue := items, consumedIndex := wadd s.q.consumedIndex 1 }
      popped := s.popped ++ [item] } := by
  have length : s.q.concurrentQueue.length = items.length + 1 := by
    rw [listed, List.length_cons]
  have count := gate.count
  have next := consumed_next gate few (by unfold held; omega)
  constructor
  · simp only [held, List.length_append, List.length_singleton] at count ⊢
    omega
  · exact gate.index
  · rw [List.length_append, List.length_singleton]
    exact next
  · exact gate.increasing
  · intro index member
    rw [List.length_append, List.length_singleton]
    refine ⟨?_, (gate.below index member).2⟩
    -- the front's turn has not come, and every other index is behind the front's
    cases locals : s.q.localQueue with
    | nil => simp [indices, locals] at member
    | cons front rest =>
        have shape : indices s = front.2 :: rest.map Prod.snd := by
          rw [indices, locals]
          rfl
        have increasing := gate.increasing
        rw [shape] at increasing
        have early := blocked front rest locals
        rw [gate.consumed] at early
        have ahead := (gate.below front.2 (by rw [shape]; exact List.mem_cons_self)).1
        have inside : index ∈ front.2 :: rest.map Prod.snd := shape ▸ member
        rcases List.mem_cons.mp inside with rfl | behind
        · omega
        · have later := (List.pairwise_cons.mp increasing).1 index behind
          omega

theorem front_turn {front : (θ × V) × Nat} {rest : List ((θ × V) × Nat)} (gate : Gate s)
    (landed : s.inFlight = []) (empty : s.q.concurrentQueue = [])
    (listed : s.q.localQueue = front :: rest) : wadd s.q.consumedIndex 1 = front.2 := by
  have shape : indices s = front.2 :: rest.map Prod.snd := by
    rw [indices, listed]
    rfl
  have increasing := gate.increasing
  have below := gate.below
  rw [shape] at increasing below
  obtain ⟨ahead, inside⟩ := below front.2 List.mem_cons_self
  have later := (List.pairwise_cons.mp increasing).1
  have shorter : (front.2 :: rest.map Prod.snd).length ≤ begun s - front.2 := by
    apply increasing_length increasing _ (Nat.le_of_lt inside)
    intro index member
    refine ⟨?_, (below index member).2⟩
    rcases List.mem_cons.mp member with rfl | behind
    · exact Nat.le_refl _
    · exact Nat.le_of_lt (later index behind)
  have count := gate.count
  rw [held, empty, listed] at count
  simp only [List.length_cons, List.length_map, List.length_nil] at shorter count
  rw [gate.consumed]
  unfold begun at shorter inside
  rw [landed, List.length_nil] at shorter inside
  omega

theorem try_pop_owner_none (refused : s.q.tryPopOwner = none) : s.q.concurrentQueue = [] ∧
    ∀ front rest, s.q.localQueue = front :: rest → wadd s.q.consumedIndex 1 ≠ front.2 := by
  have concurrent (refused : s.q.tryPopConcurrent = none) : s.q.concurrentQueue = [] := by
    unfold MpscQueue.tryPopConcurrent at refused
    split at refused
    · cases refused
    · rename_i empty
      exact empty
  unfold MpscQueue.tryPopOwner at refused
  split at refused
  · rename_i listed
    split at refused
    · cases refused
    · rename_i early
      refine ⟨concurrent refused, ?_⟩
      intro front rest same
      rw [listed] at same
      cases same
      exact early
  · rename_i listed
    refine ⟨concurrent refused, ?_⟩
    intro front rest same
    rw [listed] at same
    cases same

def Gated (s : Run θ V) : Prop := begun s < wordSize → Gate s

theorem step_gate (gate : Gated s) (step : QueueStep s after) : Gated after := by
  intro few
  unfold Gated begun at gate
  unfold begun at few
  cases step with
  | pushLocal value =>
      simp only [List.length_append, List.length_singleton] at few
      exact push_local_gate (gate (by omega)) value (by unfold begun; omega)
  | fetchAdd value foreign =>
      simp only [List.length_append, List.length_singleton] at few
      exact fetch_add_gate (gate (by omega)) (by unfold begun; omega)
  | emplace taken =>
      have length := taken.length_eq
      rw [List.length_cons] at length
      simp only [List.length_append, List.length_singleton] at few
      exact emplace_gate (gate (by omega)) taken
  | popLocal listed turn => exact pop_local_gate (gate few) few listed turn
  | popConcurrent listed blocked => exact pop_concurrent_gate (gate few) few listed blocked
  | idle => exact gate few

section Runs
variable [DecidableEq θ]

/-- With fewer than 2^64 pushes the number of items returned never passes the index
of the local front, `try_pop` returns false only when both queues are empty or a
push is in flight, and so with none in flight it returns an item while there is one. -/
theorem gate_never_wedges (reached : Reachable (queueSystem θ V) s) (few : begun s < wordSize) :
    (∀ front rest, s.q.localQueue = front :: rest → wadd s.q.consumedIndex 1 ≤ front.2) ∧
    (s.q.tryPop s.q.threadId = .ok none →
      (s.q.localQueue = [] ∧ s.q.concurrentQueue = []) ∨ s.inFlight ≠ []) ∧
    (s.inFlight = [] → s.q.localQueue ≠ [] ∨ s.q.concurrentQueue ≠ [] →
      ∃ item q, s.q.tryPop s.q.threadId = .ok (some (item, q))) := by
  have gated : Gated s := by
    apply queue_invariant _ _ reached
    · exact fun owner blank _ => start_gate owner blank
    · exact fun _ _ gate step => step_gate gate step
  have gate := gated few
  have owner : s.q.tryPop s.q.threadId = .ok s.q.tryPopOwner := if_pos rfl
  have refuses (refused : s.q.tryPopOwner = none) :
      (s.q.localQueue = [] ∧ s.q.concurrentQueue = []) ∨ s.inFlight ≠ [] := by
    obtain ⟨empty, early⟩ := try_pop_owner_none refused
    by_cases landed : s.inFlight = []
    · refine .inl ⟨?_, empty⟩
      cases listed : s.q.localQueue with
      | nil => rfl
      | cons front rest => exact (early front rest listed (front_turn gate landed empty listed)).elim
    · exact .inr landed
  refine ⟨?_, ?_, ?_⟩
  · intro front rest listed
    rw [gate.consumed]
    apply (gate.below front.2 _).1
    rw [indices, listed]
    exact List.mem_cons_self
  · intro refused
    rw [owner] at refused
    exact refuses (Except.ok.inj refused)
  · intro landed left
    cases popped : s.q.tryPopOwner with
    | some result => exact ⟨result.1, result.2, owner.trans (congrArg _ popped)⟩
    | none =>
        rcases refuses popped with ⟨noLocal, noConcurrent⟩ | flying
        · exact (left.elim (fun some_ => some_ noLocal) (fun some_ => some_ noConcurrent)).elim
        · exact (flying landed).elim

end Runs

/-- Thread 0 owns the queue and has popped its first item; thread 1 holds index 1
and has not enqueued, so the owner's second item with index 2 must wait. -/
def gapped : Run Nat Nat :=
  (afterMoves 0 (0, 0) [.push 0 10, .push 1 11, .push 0 12, .tryPop 0]).get (by decide +kernel)

theorem gate_never_wedges_gapped :
    (∀ front rest, gapped.q.localQueue = front :: rest →
      wadd gapped.q.consumedIndex 1 ≤ front.2) ∧
    (gapped.q.tryPop gapped.q.threadId = .ok none →
      (gapped.q.localQueue = [] ∧ gapped.q.concurrentQueue = []) ∨ gapped.inFlight ≠ []) ∧
    (gapped.inFlight = [] → gapped.q.localQueue ≠ [] ∨ gapped.q.concurrentQueue ≠ [] →
      ∃ item q, gapped.q.tryPop gapped.q.threadId = .ok (some (item, q))) :=
  gate_never_wedges (moves_reachable (by decide +kernel)) (by decide +kernel)

end Npoller.MpscGate
