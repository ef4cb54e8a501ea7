import Mathlib.Data.Nat.Basic
import Npoller.TwoPhaseLocking

/-!
Handles of `sulog/logger.h`: each `logger` object has a `shared_ptr` to its
`internal_logger` and a `reentrant_spin_lock`. The copy constructor locks the
object it copies, `operator=` and `swap` lock both of theirs in the order of their
addresses. Every call is a transaction under these locks.
-/

namespace Npoller.Logger

open StepSystem TwoPhaseLocking

variable {θ α L : Type*} [DecidableEq θ] [LinearOrder α]

/-- What a thread has read: `tmp` is the temporary of `std::swap`. -/
structure Regs (L : Type*) where
  log : Option L
  tmp : Option L

def load (this : α) : Access α (Option L) (Regs L) :=
  ⟨this, fun log regs => (log, { regs with log := log })⟩

def store (this : α) : Access α (Option L) (Regs L) := ⟨this, fun _ regs => (regs.log, regs)⟩

def loadTmp (this : α) : Access α (Option L) (Regs L) :=
  ⟨this, fun log regs => (log, { regs with tmp := log })⟩

def storeTmp (this : α) : Access α (Option L) (Regs L) := ⟨this, fun _ regs => (regs.tmp, regs)⟩

/-- A `shared_ptr` that was moved from is null. -/
def clear (this : α) : Access α (Option L) (Regs L) := ⟨this, fun _ regs => (none, regs)⟩

/-- `std::swap(logger1->log, logger2->log)` -/
def swapLogs (logger1 logger2 : α) : List (Access α (Option L) (Regs L)) :=
  [loadTmp logger1, clear logger1, load logger2, clear logger2, store logger1, storeTmp logger2]

inductive LoggerCall (α : Type*) where
  | copy (this that : α)
  | assign (this that : α)
  | swap (first second : α)
  deriving DecidableEq, Repr

omit [DecidableEq θ] in
theorem locks_ordered (first second : α) :
    [if first < second then first else second, if first > second then first else second].Pairwise
      (· ≤ ·) := by
  simp only [List.pairwise_cons, List.mem_singleton, forall_eq, List.not_mem_nil, false_implies,
    implies_true, List.Pairwise.nil, and_true]
  split
  · rename_i less
    rw [if_neg (not_lt_of_gt less)]
    exact le_of_lt less
  · split
    · rename_i greater
      exact le_of_lt greater
    · exact le_refl second

theorem lock_covers (first second : α) : ∀ this ∈ [first, second],
    this ∈ [if first < second then first else second, if first > second then first else second] := by
  intro this member
  rcases lt_trichotomy first second with less | same | greater
  · simpa [less, not_lt_of_gt less] using member
  · simpa [same] using member
  · simpa [greater, not_lt_of_gt greater, or_comm] using member

def copy (this that : α) : Transaction α (Option L) (Regs L) where
  locks := [that]
  own := [this]
  body := [load that, store this]
  regs := ⟨none, none⟩
  ordered := List.pairwise_singleton _ _
  covered := by simp [load, store]

def assign (this that : α) : Transaction α (Option L) (Regs L) :=
  if this = that then ⟨[], [], [], ⟨none, none⟩, List.Pairwise.nil, by simp⟩
  else
    { locks := [if this < that then this else that, if this > that then this else that]
      own := []
      body := [load that, store this]
      regs := ⟨none, none⟩
      ordered := locks_ordered this that
      covered := by
        rw [List.append_nil]
        simp only [List.forall_mem_cons]
        exact ⟨lock_covers this that that (by simp), lock_covers this that this (by simp), by simp⟩ }

def swap (first second : α) : Transaction α (Option L) (Regs L) where
  locks := [if first < second then first else second, if first > second then first else second]
  own := []
  body := swapLogs (if first < second then first else second)
    (if first > second then first else second)
  regs := ⟨none, none⟩
  ordered := locks_ordered first second
  covered := by simp [swapLogs, loadTmp, storeTmp, load, store, clear]

def LoggerCall.transaction : LoggerCall α → Transaction α (Option L) (Regs L)
  | .copy this that => Logger.copy this that
  | .assign this that => Logger.assign this that
  | .swap first second => Logger.swap first second

/-- What a call is for: the assignment of internal loggers it makes of another one. -/
def LoggerCall.apply (log : α → Option L) : LoggerCall α → α → Option L
  | .copy this that | .assign this that => Function.update log this (log that)
  | .swap first second => Function.update (Function.update log first (log second)) second (log first)

theorem load_store_effect (log : α → Option L) (this that : α) (regs : Regs L) :
    exec [load that, store this] log regs = Function.update log this (log that) := by
  simp [exec, load, store, Function.update_eq_self]

theorem swap_logs_effect (log : α → Option L) (logger1 logger2 : α) (regs : Regs L) :
    exec (swapLogs logger1 logger2) log regs = LoggerCall.apply log (.swap logger1 logger2) := by
  by_cases same : logger1 = logger2
  · subst same
    simp [exec, swapLogs, load, store, loadTmp, storeTmp, clear, LoggerCall.apply]
  · funext this
    simp only [exec, swapLogs, load, store, loadTmp, storeTmp, clear, LoggerCall.apply,
      Function.update_apply]
    by_cases first : this = logger1
    · simp [first, same, Ne.symm same]
    · by_cases second : this = logger2
      · simp [second]
      · simp [first, second]

theorem swap_comm (log : α → Option L) (first second : α) :
    LoggerCall.apply log (.swap second first) = LoggerCall.apply log (.swap first second) := by
  by_cases same : first = second
  · rw [same]
  · simp only [LoggerCall.apply]
    exact Function.update_comm (Ne.symm same) _ _ _

theorem call_effect (log : α → Option L) (call : LoggerCall α) :
    call.transaction.effect log = call.apply log := by
  cases call with
  | copy this that => exact load_store_effect log this that _
  | assign this that =>
      simp only [LoggerCall.transaction, Logger.assign, LoggerCall.apply]
      split
      · rename_i same
        rw [same, Function.update_eq_self]
        rfl
      · exact load_store_effect log this that _
  | swap first second =>
      simp only [LoggerCall.transaction, Logger.swap, Transaction.effect]
      rw [swap_logs_effect]
      rcases lt_trichotomy first second with less | same | greater
      · rw [if_pos less, if_neg (not_lt_of_gt less)]
      · rw [same, ite_self]
      · rw [if_neg (not_lt_of_gt greater), if_pos greater]
        exact swap_comm log first second

/-- Any threads call these three on any objects, which have `log` at first. -/
def loggerSystem (θ : Type*) [DecidableEq θ] (log : α → Option L) :
    System (Shared θ α (Option L) (Regs L) (LoggerCall α)) (Move θ (LoggerCall α)) :=
  lockingSystem θ LoggerCall.transaction log

variable {log : α → Option L} {s : Shared θ α (Option L) (Regs L) (LoggerCall α)}

/-- No threads wait for each other in a cycle, a thread that does not wait can go on,
and when all calls have returned the objects have what the same calls give them one
after another, in an order that keeps the order of each thread. -/
theorem handles_serialisable (reached : Reachable (loggerSystem θ log) s) :
    (∀ t, ¬Relation.TransGen (WaitsFor s) t t) ∧
    (∀ t c phase, s.running t = some (c, phase) →
      (s.step LoggerCall.transaction t).isSome ∨ ∃ u, WaitsFor s t u) ∧
    ((∀ t, s.running t = none) → ∃ order : List (θ × LoggerCall α),
      (∀ t, callsOf t order = s.called t) ∧
      s.store = order.foldl (fun before entry => entry.2.apply before) log) := by
  refine ⟨no_waiting_cycle reached, fun _ _ _ at_ => steps_or_waits reached at_, ?_⟩
  intro quiet
  obtain ⟨calls, store⟩ := quiet_serial reached quiet
  refine ⟨s.order, calls, ?_⟩
  simp only [store, serial, call_effect]

/-- Two threads swap two objects, each naming the other one first, while a copy is
made of the lower one. -/
def overlapping : List (Move Bool (LoggerCall Nat)) :=
  [.call true (.swap 1 0), .call false (.swap 0 1)] ++ List.replicate 12 (.step true) ++
    [.step false, .step true, .call true (.copy 2 0)] ++ List.replicate 12 (.step false) ++
    List.replicate 7 (.step true)

def sampleLog (this : Nat) : Option Nat := some (this + 7)

theorem overlapping_runs : (afterMoves LoggerCall.transaction sampleLog (fun this => this < 2)
    overlapping).isSome := by
  decide

def overlapped : Shared Bool Nat (Option Nat) (Regs Nat) (LoggerCall Nat) :=
  (afterMoves LoggerCall.transaction sampleLog (fun this => this < 2) overlapping).get
    overlapping_runs

theorem handles_serialisable_sample :
    (∀ t, ¬Relation.TransGen (WaitsFor overlapped) t t) ∧
    (∀ t c phase, overlapped.running t = some (c, phase) →
      (overlapped.step LoggerCall.transaction t).isSome ∨ ∃ u, WaitsFor overlapped t u) ∧
    ((∀ t, overlapped.running t = none) → ∃ order : List (Bool × LoggerCall Nat),
      (∀ t, callsOf t order = overlapped.called t) ∧
      overlapped.store = order.foldl (fun before entry => entry.2.apply before) sampleLog) :=
  handles_serialisable (moves_reachable overlapping_runs)

/-- All calls of the sample have returned, and both swaps took effect before the copy. -/
example : ∀ t, (overlapped.running t).isNone ∧
    overlapped.order = [(true, .swap 1 0), (false, .swap 0 1), (true, .copy 2 0)] := by
  decide

end Npoller.Logger
