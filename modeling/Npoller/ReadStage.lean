import Npoller.StepSystem

/-!
The reading side of an `io` as an abstract machine: a number of bytes that are there,
an operation that was taken out of the queue and found too few of them, the queue,
and the tasks of the event being handled. Bytes come with a `fill`, which is followed
by a `process`; a `process` looks at the operation taken out and then, in a `loop`, at
the queue. Operations are pushed at any time.
-/

namespace Npoller.ReadStage

open StepSystem

inductive Task where
  | fill
  | process
  | loop
  | clear
  | other
  deriving DecidableEq

/-- `managed` says that the io has a manager, as `do_register` asks; `remove_io` does not
change that. `current` and `queue` have the number of bytes each operation needs. -/
structure Stage where
  managed : Bool
  available : Nat
  current : Option Nat
  queue : List Nat
  todo : List Task

/-- The operation that is looked at next. -/
def Stage.head (s : Stage) : Option Nat := s.current.or s.queue.head?

/-- The first operation could be done, and nothing is under way that would do it. -/
def Stranded (s : Stage) : Prop :=
  s.managed = true ∧ s.todo = [] ∧ ∃ need, s.head = some need ∧ need ≤ s.available

/-- A fill is followed by a process, and a clear by a loop. -/
def Paired : List Task → Prop
  | [] => True
  | .fill :: rest => rest.head? = some .process ∧ Paired rest
  | .clear :: rest => rest.head? = some .loop ∧ Paired rest
  | .process :: rest | .loop :: rest | .other :: rest => Paired rest

/-- What a step may do. A process or a loop may take any of the bytes; the operation is
done exactly if there are enough. -/
inductive StageStep (s : Stage) : Stage → Prop where
  | stays : StageStep s s
  | leaves : StageStep s { s with managed := false }
  | begins {next : List Task} (idle : s.todo = []) (paired : Paired next) :
      StageStep s { s with todo := next }
  | goes {next rest : List Task} {managed : Bool} (at_ : s.todo = .other :: rest)
      (paired : Paired next) (stays : managed = true → s.managed = true) :
      StageStep s { s with managed, todo := next ++ rest }
  | fills {available : Nat} {next rest : List Task} {managed : Bool}
      (at_ : s.todo = .fill :: rest) (paired : Paired next)
      (stays : managed = true → s.managed = true) :
      StageStep s { s with managed, available, todo := next ++ rest }
  | looks {rest : List Task} (at_ : s.todo = .process :: rest) (none_ : s.current = none) :
      StageStep s { s with todo := .loop :: rest }
  | finishes {need available : Nat} {rest : List Task} (at_ : s.todo = .process :: rest)
      (current : s.current = some need) (enough : need ≤ s.available)
      (takes : available ≤ s.available) :
      StageStep s { s with available, todo := .other :: .clear :: .loop :: rest }
  | waits {need available : Nat} {rest : List Task} (at_ : s.todo = .process :: rest)
      (current : s.current = some need) (short : s.available < need)
      (takes : available ≤ s.available) : StageStep s { s with available, todo := rest }
  | drained {rest : List Task} (at_ : s.todo = .loop :: rest) (none_ : s.queue = []) :
      StageStep s { s with todo := rest }
  | takes {need available : Nat} {queue : List Nat} {rest : List Task}
      (at_ : s.todo = .loop :: rest) (queued : s.queue = need :: queue)
      (enough : need ≤ s.available) (takes : available ≤ s.available) :
      StageStep s { s with available, queue, todo := .other :: .loop :: rest }
  | parks {need available : Nat} {queue : List Nat} {rest : List Task}
      (at_ : s.todo = .loop :: rest) (queued : s.queue = need :: queue)
      (short : s.available < need) (takes : available ≤ s.available) :
      StageStep s { s with available, current := some need, queue, todo := rest }
  | clears {rest : List Task} (at_ : s.todo = .clear :: rest) :
      StageStep s { s with current := none, todo := rest }

/-- The label of a push is the need of its operation. -/
def stageSystem : System Stage (Option Nat) where
  init s := s.todo = [] ∧ s.current = none ∧ s.queue = []
  step before label after := match label with
    | none => StageStep before after
    | some need => after = { before with queue := before.queue ++ [need] }

/-- An operation is pushed onto an empty queue only while it has to wait for bytes or a
look at the queue is still to come. -/
def Timely (s : Stage) : Option Nat → Prop
  | none => True
  | some need => s.managed = true → s.current = none → s.queue = [] → need ≤ s.available →
      .process ∈ s.todo ∨ .loop ∈ s.todo

instance (s : Stage) : (label : Option Nat) → Decidable (Timely s label)
  | none => inferInstanceAs (Decidable True)
  | some _ => inferInstanceAs (Decidable (_ → _ → _ → _ → _ ∨ _))

structure Attended (s : Stage) : Prop where
  paired : Paired s.todo
  current : ∀ need, s.current = some need → need ≤ s.available →
    .process ∈ s.todo ∨ .clear ∈ s.todo
  queue : s.managed = true → s.current = none → ∀ need, s.queue.head? = some need →
    need ≤ s.available → .process ∈ s.todo ∨ .loop ∈ s.todo

variable {s after : Stage} {task : Task} {tasks rest : List Task}

theorem paired_rest (paired : Paired (task :: rest)) : Paired rest := by
  cases task with
  | fill | clear => exact paired.2
  | process | loop | other => exact paired

theorem paired_append (first : Paired tasks) (second : Paired rest) : Paired (tasks ++ rest) := by
  induction tasks with
  | nil => exact second
  | cons task tasks ih =>
      have later := ih (paired_rest first)
      cases task with
      | fill | clear =>
          cases tasks with
          | nil => cases first.1
          | cons next tasks => exact ⟨first.1, later⟩
      | process | loop | other => exact later

theorem still_due {first second : Task} (due : first ∈ task :: rest ∨ second ∈ task :: rest)
    (notFirst : first ≠ task) (notSecond : second ≠ task) :
    first ∈ tasks ++ rest ∨ second ∈ tasks ++ rest := by
  rcases due with here | here
  · exact .inl (List.mem_append_right _ (List.mem_of_ne_of_mem notFirst here))
  · exact .inr (List.mem_append_right _ (List.mem_of_ne_of_mem notSecond here))

theorem step_attended (attended : Attended s) (step : StageStep s after) : Attended after := by
  obtain ⟨paired, current, queue⟩ := attended
  cases step with
  | stays => exact ⟨paired, current, queue⟩
  | leaves => exact ⟨paired, current, nofun⟩
  | begins idle fresh =>
      rw [idle] at current queue
      refine ⟨fresh, ?_, ?_⟩
      · intro need waiting enough
        rcases current need waiting enough with none_ | none_ <;> cases none_
      · intro managed free need first enough
        rcases queue managed free need first enough with none_ | none_ <;> cases none_
  | goes at_ fresh stays =>
      rw [at_] at paired current queue
      refine ⟨paired_append fresh (paired_rest paired), ?_, ?_⟩
      · exact fun need waiting enough => still_due (current need waiting enough) nofun nofun
      · exact fun managed free need first enough =>
          still_due (queue (stays managed) free need first enough) nofun nofun
  -- The bytes may satisfy any operation, and the `process` below looks at the first one.
  | @fills _ _ rest _ at_ fresh _ =>
      rw [at_] at paired
      have due : .process ∈ rest := List.mem_of_head? paired.1
      refine ⟨paired_append fresh paired.2, ?_, ?_⟩
      · exact fun _ _ _ => .inl (List.mem_append_right _ due)
      · exact fun _ _ _ _ _ => .inl (List.mem_append_right _ due)
  | looks at_ none_ =>
      rw [at_] at paired
      refine ⟨paired, ?_, ?_⟩
      · intro need waiting
        rw [none_] at waiting
        cases waiting
      · exact fun _ _ _ _ _ => .inr (List.mem_cons_self ..)
  -- `current` is done but still set: the `clear` comes after the callback.
  | finishes at_ waiting _ _ =>
      rw [at_] at paired
      refine ⟨⟨rfl, paired⟩, ?_, ?_⟩
      · exact fun _ _ _ => .inr (by simp)
      · intro _ free
        rw [waiting] at free
        cases free
  -- Whatever `process` took, fewer bytes than it needs are left.
  | waits at_ waiting short takes =>
      rw [at_] at paired
      refine ⟨paired, ?_, ?_⟩
      · intro need here enough
        rw [waiting] at here
        cases here
        exact absurd (Nat.le_trans enough takes) (Nat.not_le_of_lt short)
      · intro _ free
        rw [waiting] at free
        cases free
  | @drained rest at_ none_ =>
      rw [at_] at paired current
      refine ⟨paired, ?_, ?_⟩
      · intro need waiting enough
        have due : .process ∈ [] ++ rest ∨ .clear ∈ [] ++ rest :=
          still_due (current need waiting enough) nofun nofun
        exact due
      · intro _ _ need first
        rw [none_] at first
        cases first
  | @takes _ _ _ rest at_ queued _ takes =>
      rw [at_] at paired current
      refine ⟨paired, ?_, ?_⟩
      · intro need waiting enough
        have before := current need waiting (Nat.le_trans enough takes)
        have due : .process ∈ [.other, .loop] ++ rest ∨ .clear ∈ [.other, .loop] ++ rest :=
          still_due before nofun nofun
        exact due
      · exact fun _ _ _ _ _ => .inr (by simp)
  | parks at_ queued short takes =>
      rw [at_] at paired
      refine ⟨paired, ?_, nofun⟩
      rintro need ⟨rfl⟩ enough
      exact absurd (Nat.le_trans enough takes) (Nat.not_le_of_lt short)
  | clears at_ =>
      rw [at_] at paired
      refine ⟨paired.2, nofun, ?_⟩
      exact fun _ _ _ _ _ => .inr (List.mem_of_head? paired.1)

theorem push_attended {need : Nat} (attended : Attended s) (timely : Timely s (some need)) :
    Attended { s with queue := s.queue ++ [need] } := by
  refine ⟨attended.paired, attended.current, ?_⟩
  intro managed free other first enough
  cases queued : s.queue with
  | nil =>
      rw [queued] at first
      cases first
      exact timely managed free queued enough
  | cons front queue =>
      have same : s.queue.head? = some other := by
        simpa [queued] using first
      exact attended.queue managed free other same enough

theorem none_stranded (reached : ReachableBy stageSystem Timely s) : ¬Stranded s := by
  have attended : Attended s := by
    apply invariant _ _ reached
    · rintro state ⟨idle, none_, empty⟩
      refine ⟨?_, ?_, ?_⟩
      · rw [idle]
        trivial
      · rw [none_]
        nofun
      · rw [empty]
        nofun
    · intro before label after attended timely moved
      cases label with
      | none => exact step_attended attended moved
      | some need =>
          cases moved
          exact push_attended attended timely
  rintro ⟨managed, idle, need, first, enough⟩
  have nothing {wanted second : Task} (due : wanted ∈ s.todo ∨ second ∈ s.todo) : False := by
    rw [idle] at due
    rcases due with none_ | none_ <;> cases none_
  cases waiting : s.current with
  | some need =>
      rw [Stage.head, waiting] at first
      cases first
      exact nothing (attended.current need waiting enough)
  | none =>
      rw [Stage.head, waiting] at first
      exact nothing (attended.queue managed waiting need first enough)

end Npoller.ReadStage
