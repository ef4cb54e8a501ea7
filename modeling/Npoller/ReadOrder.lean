import Mathlib.Data.List.Basic
import Npoller.TcpOps

/-!
The order in which read operations are told that they are done. `process_read` keeps
the operation in front in `temp_read_event` and clears that after its callback, so a
callback that closes the instance finds it there once more; and a `process_read`
inside a callback may leave an operation there while the loop around it goes on with
the next. Where neither happens the operations are done in the order in which they
were accepted, and none is processed after its notification.
-/

namespace Npoller.ReadOrder

open IoWrite StepSystem TcpLoop

def readsOf (ops : List Op) : List Op := ops.filter (fun op => op.type = .read)

def doneRead : Entry → Option Op
  | .notify op .done => if op.type = .read then some op else none
  | _ => none

/-- The read operations in the order of their notifications `Done`. -/
def doneReads (log : List Entry) : List Op := log.filterMap doneRead

/-- A read operation is processed after it has been notified. -/
def Stale (first later : Entry) : Prop :=
  ∃ op result, op.type = .read ∧ first = .notify op result ∧ later = .process op

variable {θ : Type*}

def parked (s : Tcp θ) : List Op :=
  if .clearTemp ∈ s.todo then [] else s.tempReadEvent.toList

/-- No `process_read` starts in the callback of the operation that it finds parked,
and no loop takes an operation while another one is parked. -/
def InTurn (s : Tcp θ) : Move θ → Prop
  | .loop _ =>
      (s.todo.head? = some .processRead → s.tempReadEvent ≠ none → .clearTemp ∉ s.todo.tail) ∧
        (s.todo.head? = some .readLoop → s.readList ≠ [] → s.tempReadEvent = none)
  | _ => True

instance (s : Tcp θ) : (move : Move θ) → Decidable (InTurn s move)
  | .loop _ => inferInstanceAs (Decidable ((_ → _) ∧ (_ → _)))
  | .call _ | .register .. | .advance _ => inferInstanceAs (Decidable True)

section Log
variable {log : List Entry} {op : Op}

@[simp] theorem done_reads_process (log : List Entry) (op : Op) :
    doneReads (log ++ [.process op]) = doneReads log := by
  simp [doneReads, doneRead]

@[simp] theorem done_reads_error (log : List Entry) (op : Op) :
    doneReads (log ++ [.notify op .ioError]) = doneReads log := by
  simp [doneReads, doneRead]

theorem done_reads_read (log : List Entry) (read : op.type = .read) :
    doneReads (log ++ [.notify op .done]) = doneReads log ++ [op] := by
  simp [doneReads, doneRead, read]

theorem done_reads_write (log : List Entry) (write : op.type = .write) :
    doneReads (log ++ [.notify op .done]) = doneReads log := by
  simp [doneReads, doneRead, write]

/-- Read operations are notified with `Done` only, and not processed later. -/
structure Told (log : List Entry) : Prop where
  done : ∀ op result, .notify op result ∈ log → op.type = .read → op ∈ doneReads log
  calls : log.Pairwise (fun first later => ¬Stale first later)

theorem told_process (told : Told log) (new : op.type = .read → op ∉ doneReads log) :
    Told (log ++ [.process op]) := by
  constructor
  · intro other result member read
    rw [done_reads_process]
    rcases List.mem_append.mp member with earlier | last
    · exact told.done other result earlier read
    · cases List.mem_singleton.mp last
  · refine List.pairwise_append.mpr ⟨told.calls, List.pairwise_singleton _ _, ?_⟩
    rintro first earlier later last ⟨other, result, read, rfl, same⟩
    rw [List.mem_singleton.mp last] at same
    cases same
    exact new read (told.done op result earlier read)

theorem told_notify {result : ResultType} (told : Told log)
    (fits : op.type = .read → result = .done) : Told (log ++ [.notify op result]) := by
  constructor
  · intro other given member read
    rw [doneReads, List.filterMap_append, List.mem_append]
    rcases List.mem_append.mp member with earlier | last
    · exact .inl (told.done other given earlier read)
    · cases List.mem_singleton.mp last
      rw [fits read]
      simp [doneRead, read]
  · refine List.pairwise_append.mpr ⟨told.calls, List.pairwise_singleton _ _, ?_⟩
    rintro first _ later last ⟨other, given, _, _, same⟩
    rw [List.mem_singleton.mp last] at same
    cases same

end Log

section Stack
variable {instr : Instr} {next rest : List Instr}

/-- One `clearTemp` at a time. -/
def Single (todo : List Instr) : Prop :=
  todo.Pairwise (fun upper lower => upper = .clearTemp → lower ≠ .clearTemp)

theorem single_rest (single : Single (instr :: rest)) : Single rest :=
  (List.pairwise_cons.mp single).2

theorem single_swap (next : List Instr) (single : Single (instr :: rest))
    (fresh : .clearTemp ∉ next) :
    Single (next ++ rest) := by
  have calm (upper : Instr) (member : upper ∈ next) : upper ≠ .clearTemp := by
    rintro rfl
    exact fresh member
  refine List.pairwise_append.mpr ⟨?_, single_rest single, ?_⟩
  · apply List.pairwise_of_forall_mem_list
    exact fun upper member _ _ same => absurd same (calm upper member)
  · exact fun upper member _ _ same => absurd same (calm upper member)

theorem member_swap (away : instr ≠ .clearTemp) (fresh : .clearTemp ∉ next) :
    .clearTemp ∈ next ++ rest ↔ .clearTemp ∈ instr :: rest := by
  rw [List.mem_append, List.mem_cons]
  constructor
  · exact fun member => .inr (member.resolve_left fresh)
  · exact fun member => .inr (member.resolve_left (fun same => away same.symm))

end Stack

structure Ordered (s : Tcp θ) : Prop where
  order : readsOf s.accepted = doneReads s.log ++ parked s ++ s.readList
  single : Single s.todo
  clearing : .clearTemp ∈ s.todo → s.tempReadEvent ≠ none
  told : Told s.log

variable {s after : Tcp θ} {input : Input}

theorem unnotified {op : Op} (ordered : Ordered s) (once : s.accepted.Nodup)
    (waits : op ∈ parked s ++ s.readList) : op ∉ doneReads s.log := by
  -- The reads accepted are the ones done, the one parked and the ones listed, in this order.
  have distinct : (doneReads s.log ++ (parked s ++ s.readList)).Nodup := by
    rw [← List.append_assoc, ← ordered.order]
    exact once.filter _
  exact fun done => (List.nodup_append.mp distinct).2.2 op done op waits rfl

theorem ordered_swap {instr : Instr} {rest : List Instr} (next : List Instr)
    (ordered : Ordered s) (at_ : s.todo = instr :: rest) (away : instr ≠ .clearTemp)
    (fresh : .clearTemp ∉ next) (todo : after.todo = next ++ rest)
    (accepted : after.accepted = s.accepted)
    (temp : after.tempReadEvent = s.tempReadEvent) (readList : after.readList = s.readList)
    (done : doneReads after.log = doneReads s.log) (told : Told after.log) : Ordered after := by
  have member : .clearTemp ∈ after.todo ↔ .clearTemp ∈ s.todo := by
    rw [todo, at_]
    exact member_swap away fresh
  have same : parked after = parked s := by
    simp only [parked, member, temp]
  refine ⟨?_, ?_, ?_, told⟩
  · rw [accepted, done, same, readList]
    exact ordered.order
  · have single := ordered.single
    rw [at_] at single
    rw [todo]
    exact single_swap _ single fresh
  · rw [member, temp]
    exact ordered.clearing

theorem parked_in_turn {op : Op} {rest : List Instr} (turn : InTurn s (.loop input))
    (at_ : s.todo = .processRead :: rest) (parked_ : s.tempReadEvent = some op) :
    .clearTemp ∉ rest := by
  have here := turn.1
  rw [at_, parked_] at here
  exact here rfl (Option.some_ne_none op)

theorem read_in_turn {op : Op} {ops : List Op} {rest : List Instr}
    (turn : InTurn s (.loop input)) (at_ : s.todo = .readLoop :: rest)
    (listed : s.readList = op :: ops) : s.tempReadEvent = none := by
  have here := turn.2
  rw [at_, listed] at here
  exact here rfl (List.cons_ne_nil op ops)

theorem parked_clearing (clearing : .clearTemp ∈ s.todo) : parked s = [] := if_pos clearing

theorem parked_quiet (quiet : .clearTemp ∉ s.todo) : parked s = s.tempReadEvent.toList :=
  if_neg quiet

theorem done_parked_ordered {op : Op} {rest : List Instr} (ordered : Ordered s)
    (once : s.accepted.Nodup) (read : op.type = .read) (at_ : s.todo = .processRead :: rest)
    (parked_ : s.tempReadEvent = some op) (turn : .clearTemp ∉ rest) :
    Ordered { (s.record (.process op)).record (.notify op .done) with
      todo := .callback :: .clearTemp :: .readLoop :: rest } := by
  have quiet : .clearTemp ∉ s.todo := by
    rw [at_]
    exact List.not_mem_cons_of_ne_of_not_mem nofun turn
  have here : parked s = [op] := by
    rw [parked_quiet quiet, parked_]
    rfl
  have new : op ∉ doneReads s.log := by
    apply unnotified ordered once
    rw [here]
    exact List.mem_cons_self
  refine ⟨?_, ?_, ?_, ?_⟩
  -- Until `clearTemp` the operation counts as done, although it is still in its place.
  · have clearing : Instr.clearTemp ∈ .callback :: .clearTemp :: .readLoop :: rest := by simp
    rw [parked_clearing clearing]
    change readsOf s.accepted =
      doneReads (s.log ++ [.process op] ++ [.notify op .done]) ++ [] ++ s.readList
    rw [done_reads_read _ read, done_reads_process, List.append_nil, ordered.order, here]
  · have single := ordered.single
    rw [at_] at single
    have below : Single (.clearTemp :: .readLoop :: rest) := by
      refine List.pairwise_cons.mpr ⟨?_, single_swap [.readLoop] single (by simp)⟩
      intro lower member _
      rintro rfl
      rcases List.mem_cons.mp member with other | below
      · cases other
      · exact turn below
    exact List.pairwise_cons.mpr ⟨(fun _ _ other => nomatch other), below⟩
  · intro _ none_
    exact nomatch none_.symm.trans parked_
  · exact told_notify (told_process ordered.told (fun _ => new)) (fun _ => rfl)

theorem front_is_next {op : Op} {ops : List Op} {rest : List Instr} (ordered : Ordered s)
    (once : s.accepted.Nodup) (at_ : s.todo = .readLoop :: rest) (listed : s.readList = op :: ops)
    (turn : s.tempReadEvent = none) :
    parked s = [] ∧ op ∉ doneReads s.log ∧ .clearTemp ∉ rest := by
  have quiet : .clearTemp ∉ s.todo := fun clearing => ordered.clearing clearing turn
  refine ⟨?_, ?_, ?_⟩
  · rw [parked_quiet quiet, turn]
    rfl
  · apply unnotified ordered once
    rw [listed]
    exact List.mem_append_right _ List.mem_cons_self
  · rw [at_] at quiet
    exact List.not_mem_of_not_mem_cons quiet

theorem done_read_ordered {op : Op} {ops : List Op} {rest : List Instr} (ordered : Ordered s)
    (once : s.accepted.Nodup) (read : op.type = .read) (at_ : s.todo = .readLoop :: rest)
    (listed : s.readList = op :: ops) (turn : s.tempReadEvent = none) :
    Ordered { (s.record (.process op)).record (.notify op .done) with
      readList := ops, todo := .callback :: .readLoop :: rest } := by
  obtain ⟨none_, new, below⟩ := front_is_next ordered once at_ listed turn
  have calm : .clearTemp ∉ Instr.callback :: .readLoop :: rest := by
    simp [below]
  refine ⟨?_, ?_, ?_, ?_⟩
  · rw [parked_quiet calm]
    change readsOf s.accepted =
      doneReads (s.log ++ [.process op] ++ [.notify op .done]) ++ s.tempReadEvent.toList ++ ops
    rw [done_reads_read _ read, done_reads_process, turn, ordered.order, none_, listed]
    simp
  · have single := ordered.single
    rw [at_] at single
    exact single_swap [.callback, .readLoop] single (by simp)
  · exact fun clearing => absurd clearing calm
  · exact told_notify (told_process ordered.told (fun _ => new)) (fun _ => rfl)

theorem parks_ordered {op : Op} {ops : List Op} {rest : List Instr} (ordered : Ordered s)
    (once : s.accepted.Nodup) (at_ : s.todo = .readLoop :: rest)
    (listed : s.readList = op :: ops) (turn : s.tempReadEvent = none) :
    Ordered { s.record (.process op) with
      readList := ops, tempReadEvent := some op, todo := rest } := by
  obtain ⟨none_, new, below⟩ := front_is_next ordered once at_ listed turn
  refine ⟨?_, ?_, ?_, ?_⟩
  · rw [parked_quiet below]
    change readsOf s.accepted = doneReads (s.log ++ [.process op]) ++ [op] ++ ops
    rw [done_reads_process, ordered.order, none_, listed]
    simp
  · have single := ordered.single
    rw [at_] at single
    exact single_rest single
  · exact fun clearing => absurd clearing below
  · exact told_process ordered.told (fun _ => new)

theorem cleared_ordered {rest : List Instr} (ordered : Ordered s)
    (at_ : s.todo = .clearTemp :: rest) :
    Ordered { s with tempReadEvent := none, todo := rest } := by
  have single := ordered.single
  rw [at_] at single
  have below : .clearTemp ∉ rest := fun member => (List.pairwise_cons.mp single).1 _ member rfl rfl
  have none_ : parked s = [] := by
    apply parked_clearing
    rw [at_]
    exact List.mem_cons_self
  refine ⟨?_, single_rest single, fun clearing => absurd clearing below, ordered.told⟩
  rw [parked_quiet below]
  have order := ordered.order
  rw [none_] at order
  exact order

theorem loop_ordered (ordered : Ordered s) (sorted : Sorted s) (once : s.accepted.Nodup)
    (turn : InTurn s (.loop input)) (step : LoopStep s input after) : Ordered after := by
  have away {next : List Instr} (fresh : ∀ pushed ∈ next, pushed.Fresh) : .clearTemp ∉ next :=
    fun member => fresh _ member
  have front {op : Op} {ops list : List Op} {type : OperationType} (listed : list = op :: ops)
      (typed : ∀ op ∈ list, op.type = type) : op.type = type :=
    typed op (listed ▸ List.mem_cons_self)
  cases step with
  | goes at_ plain fresh _ _ =>
      refine ordered_swap _ ordered at_ ?_ (away fresh) rfl rfl rfl rfl rfl ordered.told
      rintro rfl
      exact plain
  | connected at_ connects =>
      refine ordered_swap _ ordered at_ ?_ (away (handler_fresh s)) rfl rfl rfl rfl rfl ordered.told
      rintro rfl
      rcases connects with other | other <;> cases other
  | @flushed writeBuffer op ops rest at_ listed =>
      have write := front listed sorted.writes
      refine ordered_swap [.writeFlush] ordered at_ nofun (by simp) rfl rfl rfl rfl
        (done_reads_process _ _) ?_
      exact told_process ordered.told (fun read => nomatch write.symm.trans read)
  | staged at_ =>
      exact ordered_swap _ ordered at_ nofun (away (write_stage_fresh s.writeBusy)) rfl rfl rfl rfl
        rfl ordered.told
  | wrote at_ _ _ =>
      exact ordered_swap _ ordered at_ nofun (away (after_direct_write_fresh _)) rfl rfl rfl rfl
        rfl ordered.told
  | @completed _ op ops rest at_ listed =>
      have write := front listed sorted.waits
      refine ordered_swap [.callback, .eraseFront, .processWrite] ordered at_ nofun
        (by simp) rfl rfl rfl rfl (done_reads_write _ write) ?_
      exact told_notify ordered.told (fun _ => rfl)
  | erased at_ | cleaned at_ _ | readAll at_ _ | returned at_ =>
      exact ordered_swap [] ordered at_ nofun (List.not_mem_nil) rfl rfl rfl rfl rfl
        ordered.told
  | unparked at_ _ =>
      exact ordered_swap [.readLoop] ordered at_ nofun (by simp) rfl rfl rfl rfl rfl
        ordered.told
  | doneParked at_ parked_ =>
      exact done_parked_ordered ordered once (sorted.parked _ parked_) at_ parked_
        (parked_in_turn turn at_ parked_)
  | @leftParked op rest at_ parked_ =>
      have quiet : .clearTemp ∉ s.todo := by
        rw [at_]
        exact List.not_mem_cons_of_ne_of_not_mem nofun (parked_in_turn turn at_ parked_)
      have new : op ∉ doneReads s.log := by
        apply unnotified ordered once
        rw [parked_quiet quiet, parked_]
        exact List.mem_append_left _ (List.mem_singleton_self op)
      exact ordered_swap [] ordered at_ nofun (List.not_mem_nil) rfl rfl rfl rfl
        (done_reads_process _ _) (told_process ordered.told (fun _ => new))
  | doneRead at_ listed =>
      exact done_read_ordered ordered once (front listed sorted.reads) at_ listed
        (read_in_turn turn at_ listed)
  | parks at_ listed =>
      exact parks_ordered ordered once at_ listed (read_in_turn turn at_ listed)
  | cleared at_ => exact cleared_ordered ordered at_
  | closes at_ =>
      exact ordered_swap [.processRead, .cleanWrite, .dropManager, .closeStatus] ordered
        at_ nofun (by simp) rfl rfl rfl rfl rfl ordered.told
  | @failed _ op ops rest at_ listed =>
      have write := front listed sorted.writes
      refine ordered_swap [.callback, .cleanWrite] ordered at_ nofun (by simp) rfl rfl rfl
        rfl (done_reads_error _ _) ?_
      exact told_notify ordered.told (fun read => nomatch write.symm.trans read)

/-- What the order of the reads rests on. -/
def InOrder (s : Tcp θ) : Prop := Ordered s ∧ Sorted s ∧ Distinct s

theorem initially_in_order (fd : Int) (status : TcpSetters.TcpStatus) (connectHandler : Bool)
    (mem : MemContainer.Mem) : InOrder (.construct fd status connectHandler mem : Tcp θ) := by
  refine ⟨⟨rfl, List.Pairwise.nil, nofun, ⟨nofun, List.Pairwise.nil⟩⟩, ?_, ?_⟩
  · exact ⟨nofun, nofun, nofun, nofun⟩
  · exact ⟨List.nodup_nil, nofun, nofun, nofun⟩

section Threads
variable [DecidableEq θ] {t : θ}

theorem register_ordered (ordered : Ordered s) (step : RegisterStep s t after) : Ordered after := by
  cases step with
  | begun _ _ _ | refused _ | passed _ | announced _ =>
      exact ⟨ordered.order, ordered.single, ordered.clearing, ordered.told⟩
  | @pushedRead op _ type =>
      refine ⟨?_, ordered.single, ordered.clearing, ordered.told⟩
      change readsOf (s.accepted ++ [op]) = doneReads s.log ++ parked s ++ (s.readList ++ [op])
      have one : readsOf [op] = [op] := by simp [readsOf, type]
      rw [readsOf, List.filter_append, ← readsOf, ← readsOf, one, ordered.order, List.append_assoc]
  | @pushedWrite op _ type =>
      refine ⟨?_, ordered.single, ordered.clearing, ordered.told⟩
      change readsOf (s.accepted ++ [op]) = doneReads s.log ++ parked s ++ s.readList
      have none_ : readsOf [op] = [] := by simp [readsOf, type]
      rw [readsOf, List.filter_append, ← readsOf, ← readsOf, none_, ordered.order, List.append_nil]

theorem step_ordered {move : Move θ} (ordered : Ordered s) (sorted : Sorted s)
    (once : s.accepted.Nodup) (turn : InTurn s move)
    (moves : (tcpLoop θ).step s move after) : Ordered after := by
  cases move with
  | call made =>
      obtain ⟨idle, readyToWrite, next, fresh, rfl⟩ := call_steps moves
      have calm : .clearTemp ∉ next := fun member => fresh _ member
      have none_ : .clearTemp ∉ s.todo := by
        rw [idle]
        exact List.not_mem_nil
      refine ⟨?_, ?_, fun clearing => absurd clearing calm, ordered.told⟩
      · rw [parked_quiet calm]
        have order := ordered.order
        rw [parked_quiet none_] at order
        exact order
      · apply List.pairwise_of_forall_mem_list
        rintro upper member lower _ rfl
        exact absurd member calm
  | loop input => exact loop_ordered ordered sorted once turn (loop_steps moves)
  | register t type ioId size => exact register_ordered ordered (register_steps moves)
  | advance t => exact register_ordered ordered (advance_steps moves)

theorem step_in_order {move : Move θ} (inOrder : InOrder s) (turn : InTurn s move)
    (moves : (tcpLoop θ).step s move after) : InOrder after := by
  obtain ⟨ordered, sorted, distinct⟩ := inOrder
  exact ⟨step_ordered ordered sorted distinct.once turn moves, step_sorted sorted moves,
    step_distinct distinct moves⟩

/-- In a run that keeps the turns, the read operations done are the first ones
accepted, in that order and each once, and none is processed after its notification. -/
theorem reads_done_in_order (reached : ReachableBy (tcpLoop θ) InTurn s) :
    doneReads s.log <+: readsOf s.accepted ∧ (doneReads s.log).Nodup ∧
      s.log.Pairwise (fun first later => ¬Stale first later) := by
  have kept : InOrder s := by
    apply invariant _ _ reached
    · rintro state ⟨fd, status, connectHandler, mem, rfl⟩
      exact initially_in_order fd status connectHandler mem
    · exact fun _ _ _ inOrder turn moves => step_in_order inOrder turn moves
  obtain ⟨ordered, _, distinct⟩ := kept
  have begins : doneReads s.log <+: readsOf s.accepted := by
    rw [ordered.order, List.append_assoc]
    exact List.prefix_append _ _
  exact ⟨begins, (distinct.once.filter _).sublist begins.sublist, ordered.told.calls⟩

end Threads

def blankMem : MemContainer.Mem := .initial (fun _ _ => 0) 256

/-- A read operation that the first EPOLLIN parks and the second one finishes, up to
the callback. -/
def untilCallback : List (Move Unit) :=
  [.register () .read (-1) 0, .advance (), .advance (), .call (.event ⟨true, false, false⟩),
    .loop .returns, .loop (.read .again), .loop (.processed false), .loop (.processed false),
    .loop .returns, .loop (.flushed ⟨blankMem, .fresh⟩), .loop .returns, .loop (.wrote []),
    .loop .returns, .loop .returns, .loop .returns, .call (.event ⟨true, false, false⟩),
    .loop .returns, .loop (.read .again), .loop (.processed true)]

def doneOnce : Tcp Unit :=
  (afterMoves InTurn .connected blankMem
    (untilCallback ++ [.loop .returns, .loop .returns, .loop (.processed true)])).get
    (by decide +kernel)

theorem reads_done_in_order_once : doneReads doneOnce.log <+: readsOf doneOnce.accepted ∧
    (doneReads doneOnce.log).Nodup ∧
      doneOnce.log.Pairwise (fun first later => ¬Stale first later) :=
  reads_done_in_order (moves_reachable (by decide +kernel))

/-- The callback closes the instance, and `clean_read` finds the operation parked. -/
def doneTwice : Tcp Unit :=
  (afterMoves (fun _ _ => True) .connected blankMem
    (untilCallback ++ [.loop .closes, .loop .returns, .loop (.processed true)])).get
    (by decide +kernel)

theorem read_notified_twice : Reachable (tcpLoop Unit) doneTwice ∧
    doneReads doneTwice.log = [⟨0, .read, 0⟩, ⟨0, .read, 0⟩] :=
  ⟨moves_reachable (by decide +kernel), by decide +kernel⟩

end Npoller.ReadOrder
