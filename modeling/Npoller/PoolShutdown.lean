import Mathlib.Data.Fintype.Card
import Npoller.ThreadPool

/-!
How many wake-ups there are for the workers at the blocking `pop`. The destructor
pushes four for each worker, but a worker in the drain loop takes as many as it
finds. As long as it leaves one for every worker at `pop` none of them waits for
ever; a single worker leaves them all to itself, and from two on one can starve
the other.
-/

namespace Npoller.PoolShutdown

open ThreadPool StepSystem

variable {n : Nat}

/-- The workers at the blocking `pop`, or about to enter it after `stop == false`. -/
def popping (s : Pool n) : Finset (Fin n) := Finset.univ.filter (fun w => s.workers w = .popping)

def toPush (n : Nat) : CloserPc → Nat
  | .idle => 4 * n
  | .pushing left => left
  | .joining _ | .joined => 0

def PushedAll : CloserPc → Prop
  | .pushing 0 | .joining _ | .joined => True
  | .idle | .pushing (_ + 1) => False

instance (pc : CloserPc) : Decidable (PushedAll pc) := by
  unfold PushedAll
  split <;> infer_instance

/-- The destructor has pushed its last task and a worker waits for one in vain. -/
def Stranded (s : Pool n) : Prop :=
  PushedAll s.closer ∧ s.tasks = [] ∧ ∃ w, s.workers w = .popping

/-- A worker in the drain loop takes a task only if one is left, or still to be
pushed, for every worker at `pop`. -/
def LeavesWakeUps (s : Pool n) : Move n → Prop
  | .worker w => s.workers w = .draining → s.tasks ≠ [] →
      (popping s).card < s.tasks.length + toPush n s.closer
  | _ => True

instance (s : Pool n) : (move : Move n) → Decidable (LeavesWakeUps s move)
  | .worker _ => inferInstanceAs (Decidable (_ → _ → _))
  | .enqueue | .enqueueFrom _ | .closer => inferInstanceAs (Decidable True)

structure Supplied (s : Pool n) : Prop where
  flag : s.stop = false → s.closer = .idle
  enough : (popping s).card ≤ s.tasks.length + toPush n s.closer

variable {s : Pool n} {w : Fin n}

theorem popping_few (s : Pool n) : (popping s).card ≤ n := by
  have most := Finset.card_le_univ (popping s)
  rwa [Fintype.card_fin] at most

theorem popping_leave {tasks : List Item} {executed : List TaskId} {next : WorkerPc}
    (pc : s.workers w = .popping) (leaves : next ≠ .popping) :
    (popping ({ s with tasks, executed }.setWorker w next)).card + 1 = (popping s).card := by
  have member : w ∈ popping s := Finset.mem_filter.mpr ⟨Finset.mem_univ w, pc⟩
  have fewer : popping ({ s with tasks, executed }.setWorker w next) = (popping s).erase w := by
    ext v
    simp only [popping, Finset.mem_filter, Finset.mem_univ, true_and, Finset.mem_erase]
    by_cases same : v = w
    · subst same
      rw [set_worker_self]
      exact ⟨fun at_ => (leaves at_).elim, fun both => (both.1 rfl).elim⟩
    · rw [set_worker_other _ _ same]
      exact ⟨fun at_ => ⟨same, at_⟩, fun both => both.2⟩
  rw [fewer, Finset.card_erase_add_one member]

theorem popping_same {tasks : List Item} {executed : List TaskId} {next : WorkerPc}
    (before : s.workers w ≠ .popping) (after : next ≠ .popping) :
    popping ({ s with tasks, executed }.setWorker w next) = popping s := by
  ext v
  simp only [popping, Finset.mem_filter, Finset.mem_univ, true_and]
  by_cases same : v = w
  · subst same
    rw [set_worker_self]
    exact ⟨fun at_ => (after at_).elim, fun at_ => (before at_).elim⟩
  · rw [set_worker_other _ _ same]

theorem worker_supplied {after : Pool n} (supplied : Supplied s)
    (allowed : LeavesWakeUps s (.worker w)) (step : WorkerStep s w after) : Supplied after := by
  have enough := supplied.enough
  have keep {executed : List TaskId} {pc next : WorkerPc} (at_ : s.workers w = pc)
      (before : pc ≠ .popping) (leaves : next ≠ .popping) :
      Supplied ({ s with executed }.setWorker w next) := by
    refine ⟨supplied.flag, ?_⟩
    rw [← at_] at before
    rw [popping_same before leaves]
    exact enough
  cases step with
  | pop pc listed =>
      rename_i item rest
      refine ⟨supplied.flag, ?_⟩
      have fewer : (popping ({ s with tasks := rest }.setWorker w (.running item))).card + 1 =
          (popping s).card := popping_leave pc WorkerPc.noConfusion
      rw [listed, List.length_cons] at enough
      change (popping ({ s with tasks := rest }.setWorker w (.running item))).card ≤
        rest.length + toPush n s.closer
      omega
  | finish pc | drain pc _ | finishDrain pc | leave pc _ =>
      exact keep pc WorkerPc.noConfusion WorkerPc.noConfusion
  -- A worker goes back to `pop` only before the destructor has begun, when all 4 n
  -- pushes are still to come.
  | goOn pc open_ =>
      refine ⟨supplied.flag, ?_⟩
      have idle := supplied.flag open_
      have few := popping_few (s.setWorker w .popping)
      change (popping (s.setWorker w .popping)).card ≤ s.tasks.length + toPush n s.closer
      rw [idle, toPush]
      omega
  | tryPop pc listed =>
      rename_i item rest
      refine ⟨supplied.flag, ?_⟩
      -- The condition leaves one item more than workers wait, and this step takes one.
      have left := allowed pc (by rw [listed]; exact List.cons_ne_nil _ _)
      have same : popping ({ s with tasks := rest }.setWorker w (.runningDrain item)) = popping s :=
        popping_same (by rw [pc]; exact WorkerPc.noConfusion) WorkerPc.noConfusion
      rw [listed, List.length_cons] at left
      rw [same]
      change (popping s).card ≤ rest.length + toPush n s.closer
      omega

theorem closer_supplied {after : Pool n} (supplied : Supplied s) (step : CloserStep s after) :
    Supplied after := by
  have enough := supplied.enough
  cases step with
  | storeStop pc =>
      rw [pc] at enough
      exact ⟨fun open_ => Bool.noConfusion open_, enough⟩
  | push pc =>
      rename_i left
      refine ⟨fun open_ => ?_, ?_⟩
      · rw [supplied.flag open_] at pc
        cases pc
      · rw [pc] at enough
        change (popping s).card ≤ (s.tasks ++ [Item.empty]).length + left
        rw [List.length_append, List.length_singleton]
        simp only [toPush] at enough
        omega
  | pushed pc | join pc _ _ | joined pc _ =>
      refine ⟨fun open_ => ?_, ?_⟩
      · rw [supplied.flag open_] at pc
        cases pc
      · rw [pc] at enough
        exact enough

theorem pushed_all_none {pc : CloserPc} (pushed : PushedAll pc) : toPush n pc = 0 := by
  cases pc with
  | idle => exact pushed.elim
  | pushing left =>
      cases left with
      | zero => rfl
      | succ _ => exact pushed.elim
  | joining _ => rfl
  | joined => rfl

theorem supplied_not_stranded (supplied : Supplied s) : ¬Stranded s := by
  rintro ⟨pushed, none_, w, pc⟩
  have enough := supplied.enough
  have member : w ∈ popping s := Finset.mem_filter.mpr ⟨Finset.mem_univ w, pc⟩
  have some_ := Finset.card_pos.mpr ⟨w, member⟩
  rw [none_, pushed_all_none pushed, List.length_nil] at enough
  omega

theorem run_supplied (reached : ReachableBy (poolSystem n) LeavesWakeUps s) : Supplied s := by
  apply pool_invariant _ _ _ _ reached
  · refine ⟨fun _ => rfl, ?_⟩
    have few := popping_few (Pool.construct : Pool n)
    change (popping (Pool.construct : Pool n)).card ≤ 0 + 4 * n
    omega
  · intro s supplied _
    refine ⟨supplied.flag, ?_⟩
    have enough := supplied.enough
    change (popping s).card ≤ (s.tasks ++ [Item.task s.nextTask]).length + toPush n s.closer
    rw [List.length_append]
    omega
  · exact fun s w after supplied allowed step => worker_supplied supplied allowed step
  · exact fun s after supplied step => closer_supplied supplied step

theorem single_leaves (single : n ≤ 1) (move : Move n) : LeavesWakeUps s move := by
  cases move with
  | worker w =>
      intro pc some_
      have none_ : popping s = ∅ := by
        apply Finset.filter_eq_empty_iff.mpr
        intro v _ at_
        have same : v = w := Fin.ext (by have := v.isLt; have := w.isLt; omega)
        rw [same, pc] at at_
        cases at_
      rw [none_, Finset.card_empty]
      have length := List.length_pos_iff.mpr some_
      omega
  | enqueue | enqueueFrom _ | closer => trivial

section Starving

theorem worker_reaches {after : Pool n} (reached : Reachable (poolSystem n) s)
    (step : WorkerStep s w after) : Reachable (poolSystem n) after := by
  have moves : (poolSystem n).step s (.worker w) after := steps_advance step
  exact reachable_next reached moves

theorem closer_reaches {after : Pool n} (reached : Reachable (poolSystem n) s)
    (moves : closerMove s = some after) : Reachable (poolSystem n) after := by
  have step : (poolSystem n).step s .closer after := moves
  exact reachable_next reached step

theorem push_all {left : Nat} (reached : Reachable (poolSystem n) s)
    (pc : s.closer = .pushing left) :
    Reachable (poolSystem n) { s with
      tasks := s.tasks ++ List.replicate left .empty, closer := .pushing 0 } := by
  induction left generalizing s with
  | zero =>
      rw [List.replicate_zero, List.append_nil, ← pc]
      exact reached
  | succ left ih =>
      have moved : Reachable (poolSystem n)
          { s with tasks := s.tasks ++ [.empty], closer := .pushing left } := by
        apply closer_reaches reached
        rw [closerMove, pc]
      have later := ih moved rfl
      rwa [List.append_assoc, List.singleton_append, ← List.replicate_succ] at later

structure OthersStand (s : Pool n) (w : Fin n) (after : Pool n) : Prop where
  closer : after.closer = s.closer
  others : ∀ v ≠ w, after.workers v = s.workers v

theorem enter_drain {item : Item} {rest : List Item} (reached : Reachable (poolSystem n) s)
    (pc : s.workers w = .popping) (stopped : s.stop = true) (listed : s.tasks = item :: rest) :
    ∃ after, Reachable (poolSystem n) after ∧ OthersStand s w after ∧
      after.workers w = .draining := by
  have taken := worker_reaches reached (.pop pc listed)
  have finished := worker_reaches taken (.finish (set_worker_self _ _ _))
  have entered := worker_reaches finished (.drain (set_worker_self _ _ _) stopped)
  refine ⟨_, entered, ⟨rfl, ?_⟩, set_worker_self _ _ _⟩
  intro v other
  rw [set_worker_other _ _ other, set_worker_other _ _ other]
  exact set_worker_other _ _ other

theorem drain_all {tasks : List Item} (reached : Reachable (poolSystem n) s)
    (pc : s.workers w = .draining) (listed : s.tasks = tasks) :
    ∃ after, Reachable (poolSystem n) after ∧ OthersStand s w after ∧ after.tasks = [] := by
  induction tasks generalizing s with
  | nil => exact ⟨s, reached, ⟨rfl, fun _ _ => rfl⟩, listed⟩
  | cons item rest ih =>
      have taken := worker_reaches reached (.tryPop pc listed)
      have finished := worker_reaches taken (.finishDrain (set_worker_self _ _ _))
      obtain ⟨after, reachedAfter, stand, none_⟩ := ih finished (set_worker_self _ _ _) rfl
      refine ⟨after, reachedAfter, ⟨stand.closer, ?_⟩, none_⟩
      intro v other
      rw [stand.others v other, set_worker_other _ _ other]
      exact set_worker_other _ _ other

theorem stranded_reachable (two : 1 < n) : ∃ s : Pool n, Reachable (poolSystem n) s ∧ Stranded s := by
  obtain ⟨first, second, other⟩ : ∃ first second : Fin n, second ≠ first :=
    ⟨⟨0, by omega⟩, ⟨1, two⟩, fun same => by cases same⟩
  have begun : Reachable (poolSystem n) (Pool.construct : Pool n) := .start rfl
  have stopped := closer_reaches begun rfl
  have pushed := push_all stopped rfl
  obtain ⟨count, four⟩ : ∃ count, 4 * n = count + 1 := ⟨4 * n - 1, by omega⟩
  have listed : ([] : List Item) ++ List.replicate (4 * n) .empty =
      .empty :: List.replicate count .empty := by
    rw [four, List.replicate_succ, List.nil_append]
  -- All items are there, no worker has moved: the first one takes an item, sees the flag
  -- and drains the rest while the second one stays at `pop`.
  obtain ⟨entered, reached, stand, pc⟩ := enter_drain pushed (w := first) rfl rfl listed
  obtain ⟨drained, reachedAll, standAll, none_⟩ := drain_all reached pc rfl
  refine ⟨drained, reachedAll, ?_, none_, second, ?_⟩
  · rw [standAll.closer, stand.closer]
    trivial
  · rw [standAll.others second other, stand.others second other]
    rfl

end Starving

/-- Where every worker in the drain loop leaves a wake-up for each worker at `pop`,
no worker is stranded; without that condition none is stranded in any run exactly
when the pool has at most one worker. -/
theorem no_worker_stranded (n : Nat) :
    (∀ s : Pool n, ReachableBy (poolSystem n) LeavesWakeUps s → ¬Stranded s) ∧
    ((∀ s : Pool n, Reachable (poolSystem n) s → ¬Stranded s) ↔ n ≤ 1) := by
  have kept (s : Pool n) (reached : ReachableBy (poolSystem n) LeavesWakeUps s) : ¬Stranded s :=
    supplied_not_stranded (run_supplied reached)
  refine ⟨kept, ?_, ?_⟩
  · intro never
    by_contra two
    obtain ⟨s, reached, stranded⟩ := stranded_reachable (Nat.lt_of_not_le two)
    exact never s reached stranded
  · intro single s reached
    apply kept
    induction reached with
    | start begins => exact .start begins
    | next _ _ moves ih => exact .next ih (single_leaves single _) moves

/-- Both workers take a wake-up before worker 0 drains the rest, and the destructor joins
them. -/
def sharedOut : List (Move 2) :=
  List.replicate 10 .closer ++ List.replicate 3 (.worker ⟨0, Nat.zero_lt_two⟩) ++
    List.replicate 3 (.worker ⟨1, Nat.one_lt_two⟩) ++
    List.replicate 13 (.worker ⟨0, Nat.zero_lt_two⟩) ++
    .worker ⟨1, Nat.one_lt_two⟩ :: List.replicate 3 .closer

def afterSharing : Option (Pool 2) :=
  sharedOut.foldlM (fun s move => if LeavesWakeUps s move then move.run s else none) .construct

theorem sharing_runs : afterSharing.isSome := by decide +kernel

theorem no_worker_stranded_joined : (afterSharing.get sharing_runs).closer = .joined ∧
    ¬Stranded (afterSharing.get sharing_runs) := by
  have reached : ReachableBy (poolSystem 2) LeavesWakeUps (afterSharing.get sharing_runs) :=
    guarded_reachable (fun _ _ _ moved => moved) (.start rfl) (Option.some_get sharing_runs).symm
  exact ⟨by decide +kernel, (no_worker_stranded 2).1 _ reached⟩

/-- Worker 0 takes the first wake-up and the seven others. -/
def starved : Pool 2 :=
  (afterMoves 2 (List.replicate 10 .closer ++
    List.replicate 18 (.worker ⟨0, Nat.zero_lt_two⟩))).get (by decide +kernel)

theorem worker_stranded : Reachable (poolSystem 2) starved ∧ Stranded starved := by
  refine ⟨moves_reachable (by decide +kernel), ?_⟩
  unfold Stranded
  decide +kernel

end Npoller.PoolShutdown
