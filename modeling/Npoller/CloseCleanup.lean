import Mathlib.Data.List.Count
import Npoller.ReadOrder

/-!
What becomes of the accepted operations when a tcp instance is closed. `clean_read`
processes the read operations and notifies those that are done; `clean_write` notifies
what is in `write_list`. A read operation that is not done stays parked, an operation
in `wait_write_list` stays there, and what is registered after its list has been
emptied stays too. Where a close meets none of these, every operation accepted before
it returns has been notified once.
-/

namespace Npoller.CloseCleanup

open IoWrite ReadOrder StepSystem TcpLoop TcpSetters

def notifiedOp : Entry → Option Op
  | .notify op _ => some op
  | .process _ => none

def notifiedOps (log : List Entry) : List Op := log.filterMap notifiedOp

variable {θ : Type*}

/-- `wait_write_list` without the operation whose callback runs. -/
def waiting (s : Tcp θ) : List Op :=
  if .eraseFront ∈ s.todo then s.waitWriteList.tail else s.waitWriteList

/-- The operations that have been accepted and not notified. -/
def pending (s : Tcp θ) : List Op := parked s ++ s.readList ++ s.writeList ++ waiting s

def looksAtReads : Instr → Bool
  | .processRead | .readLoop | .close => true
  | _ => false

def looksAtParked : Instr → Bool
  | .processRead | .close => true
  | _ => false

def looksAtWrites : Instr → Bool
  | .cleanWrite | .close => true
  | _ => false

def Opens (looks : Instr → Bool) : List Instr → Prop
  | [] => True
  | instr :: rest => looks instr = true ∨ instr ≠ .closeStatus ∧ Opens looks rest

instance decidableOpens (looks : Instr → Bool) : (todo : List Instr) → Decidable (Opens looks todo)
  | [] => inferInstanceAs (Decidable True)
  | _ :: rest =>
      have := decidableOpens looks rest
      inferInstanceAs (Decidable (_ ∨ _ ∧ _))

/-- The list that a pushed operation gets into is looked at before a close is over. -/
def InTime (todo : List Instr) : OperationType → Prop
  | .read => Opens looksAtReads todo
  | .write => Opens looksAtWrites todo

instance (todo : List Instr) : (type : OperationType) → Decidable (InTime todo type)
  | .read => inferInstanceAs (Decidable (Opens looksAtReads todo))
  | .write => inferInstanceAs (Decidable (Opens looksAtWrites todo))

def PushesInTime (todo : List Instr) : RegisterPc → Prop
  | .pushing op => InTime todo op.type
  | .idle | .checking _ | .announcing => True

instance (todo : List Instr) : (pc : RegisterPc) → Decidable (PushesInTime todo pc)
  | .pushing op => inferInstanceAs (Decidable (InTime todo op.type))
  | .idle | .checking _ | .announcing => inferInstanceAs (Decidable True)

def undone : Input → Bool
  | .processed result => !result
  | _ => false

/-- In a close every read operation is done when it is processed; a close starts with
nothing in `wait_write_list`; and no operation is pushed behind the back of a close. -/
def ClosesClean (s : Tcp θ) : Move θ → Prop
  | .loop input =>
      (s.todo.head? = some .processRead → s.tempReadEvent ≠ none → undone input = true →
        .closeStatus ∉ s.todo.tail) ∧
      (s.todo.head? = some .readLoop → s.readList ≠ [] → undone input = true →
        .closeStatus ∉ s.todo.tail) ∧
      (s.todo.head? = some .close → waiting s = [])
  | .advance t => PushesInTime s.todo (s.threads t)
  | _ => True

instance (s : Tcp θ) : (move : Move θ) → Decidable (ClosesClean s move)
  | .loop _ => inferInstanceAs (Decidable ((_ → _) ∧ (_ → _) ∧ (_ → _)))
  | .advance t => inferInstanceAs (Decidable (PushesInTime s.todo (s.threads t)))
  | .call _ | .register .. => inferInstanceAs (Decidable True)

/-- The condition of `ReadOrder` and this one. -/
def Orderly (s : Tcp θ) (move : Move θ) : Prop := InTurn s move ∧ ClosesClean s move

instance (s : Tcp θ) (move : Move θ) : Decidable (Orderly s move) :=
  inferInstanceAs (Decidable (_ ∧ _))

section Stack
variable {looks : Instr → Bool} {instr : Instr} {next rest : List Instr}

theorem unclosed_opens {todo : List Instr} (unclosed : .closeStatus ∉ todo) : Opens looks todo := by
  induction todo with
  | nil => trivial
  | cons instr rest ih =>
      obtain ⟨other, below⟩ := List.ne_and_not_mem_of_not_mem_cons unclosed
      exact .inr ⟨fun same => other same.symm, ih below⟩

theorem opens_append (opens : Opens looks rest) (fresh : .closeStatus ∉ next) :
    Opens looks (next ++ rest) := by
  induction next with
  | nil => exact opens
  | cons instr next ih =>
      obtain ⟨other, below⟩ := List.ne_and_not_mem_of_not_mem_cons fresh
      exact .inr ⟨fun same => other same.symm, ih below⟩

theorem returning_closed (blind : looks .closeStatus = false) :
    ¬Opens looks (.closeStatus :: rest) := by
  rintro (looks_ | ⟨other, _⟩)
  · rw [blind] at looks_
    cases looks_
  · exact other rfl

theorem opens_swap (opens : Opens looks (instr :: rest)) (blind : looks instr = false)
    (fresh : .closeStatus ∉ next) : Opens looks (next ++ rest) := by
  rcases opens with looks_ | ⟨_, below⟩
  · rw [blind] at looks_
    cases looks_
  · exact opens_append below fresh

end Stack

/-- Below an instruction of a program no close is unfinished, and no operation is
about to leave `wait_write_list`. -/
def Layered (todo : List Instr) : Prop :=
  todo.Pairwise (fun upper lower => upper.Base → lower ≠ .closeStatus ∧ lower ≠ .eraseFront)

structure Emptied (s : Tcp θ) : Prop where
  reads : ¬Opens looksAtReads s.todo → s.readList = []
  parks : ¬Opens looksAtParked s.todo → parked s = []
  writes : ¬Opens looksAtWrites s.todo → s.writeList = []
  waits : .closeStatus ∈ s.todo → waiting s = []

/-- Every accepted operation is either notified or pending, and only once. -/
def Summed (s : Tcp θ) : Prop := (notifiedOps s.log ++ pending s).Perm s.accepted

variable {s after : Tcp θ} {input : Input}

section Layers
variable {instr : Instr} {next rest : List Instr}

theorem layered_rest (layered : Layered (instr :: rest)) : Layered rest :=
  (List.pairwise_cons.mp layered).2

theorem layered_swap (layered : Layered (instr :: rest))
    (fresh : ∀ pushed ∈ next, pushed ≠ .closeStatus ∧ pushed ≠ .eraseFront)
    (base : ∀ pushed ∈ next, pushed.Base → instr.Base) : Layered (next ++ rest) := by
  obtain ⟨above, below⟩ := List.pairwise_cons.mp layered
  refine List.pairwise_append.mpr ⟨?_, below, ?_⟩
  · exact List.pairwise_of_forall_mem_list (fun _ _ lower member _ => fresh lower member)
  · exact fun upper pushed lower member isBase => above lower member (base upper pushed isBase)

theorem layered_calm (next : List Instr) (layered : Layered rest)
    (calm : ∀ pushed ∈ next, ¬pushed.Base) :
    Layered (next ++ rest) := by
  refine List.pairwise_append.mpr ⟨?_, layered, ?_⟩
  · apply List.pairwise_of_forall_mem_list
    exact fun upper member _ _ base => absurd base (calm upper member)
  · exact fun upper member _ _ base => absurd base (calm upper member)

theorem base_unclosed (layered : Layered (instr :: rest)) (base : instr.Base) :
    .closeStatus ∉ rest ∧ .eraseFront ∉ rest := by
  have above := (List.pairwise_cons.mp layered).1
  exact ⟨fun member => (above _ member base).1 rfl, fun member => (above _ member base).2 rfl⟩

theorem unclosed_emptied (unclosed : .closeStatus ∉ s.todo) : Emptied s :=
  ⟨fun closed => absurd (unclosed_opens unclosed) closed,
    fun closed => absurd (unclosed_opens unclosed) closed,
    fun closed => absurd (unclosed_opens unclosed) closed, fun closing => absurd closing unclosed⟩

theorem returning_empty (emptied : Emptied s) (at_ : s.todo = .closeStatus :: rest) :
    s.readList = [] ∧ parked s = [] ∧ s.writeList = [] ∧ waiting s = [] := by
  have closed (looks : Instr → Bool) (blind : looks .closeStatus = false) :
      ¬Opens looks s.todo := by
    rw [at_]
    exact returning_closed blind
  have closing : .closeStatus ∈ s.todo := by
    rw [at_]
    exact List.mem_cons_self
  exact ⟨emptied.reads (closed _ rfl), emptied.parks (closed _ rfl), emptied.writes (closed _ rfl),
    emptied.waits closing⟩

theorem fresh_ends (fresh : ∀ pushed ∈ next, pushed.Fresh) :
    ∀ pushed ∈ next, pushed ≠ .closeStatus ∧ pushed ≠ .eraseFront := by
  intro pushed member
  constructor
  · rintro rfl
    exact fresh _ member
  · rintro rfl
    exact fresh _ member

end Layers

theorem waiting_erasing (erasing : .eraseFront ∈ s.todo) : waiting s = s.waitWriteList.tail :=
  if_pos erasing

theorem waiting_quiet (quiet : .eraseFront ∉ s.todo) : waiting s = s.waitWriteList := if_neg quiet

theorem waiting_swap {instr : Instr} {rest : List Instr} (next : List Instr)
    (at_ : s.todo = instr :: rest) (away : instr ≠ .eraseFront) (fresh : .eraseFront ∉ next)
    (todo : after.todo = next ++ rest)
    (waits : after.waitWriteList = s.waitWriteList) : waiting after = waiting s := by
  have member : .eraseFront ∈ after.todo ↔ .eraseFront ∈ s.todo := by
    rw [todo, at_, List.mem_append, List.mem_cons]
    constructor
    · exact fun member => .inr (member.resolve_left fresh)
    · exact fun member => .inr (member.resolve_left (fun same => away same.symm))
  simp only [waiting, member, waits]

theorem parked_swap {instr : Instr} {rest : List Instr} (next : List Instr)
    (at_ : s.todo = instr :: rest) (away : instr ≠ .clearTemp) (fresh : .clearTemp ∉ next)
    (todo : after.todo = next ++ rest)
    (temp : after.tempReadEvent = s.tempReadEvent) : parked after = parked s := by
  have member : .clearTemp ∈ after.todo ↔ .clearTemp ∈ s.todo := by
    rw [todo, at_]
    exact member_swap away fresh
  simp only [parked, member, temp]

theorem loop_layered (layered : Layered s.todo) (step : LoopStep s input after) :
    Layered after.todo := by
  cases step with
  | goes at_ _ fresh base _ =>
      rw [at_] at layered
      exact layered_swap layered (fresh_ends fresh) base
  | connected at_ connects =>
      rw [at_] at layered
      exact layered_swap layered (fresh_ends (handler_fresh s))
        (fun _ _ _ => (connects_plain connects).2)
  | flushed at_ _ =>
      rw [at_] at layered
      exact layered
  | staged at_ =>
      rw [at_] at layered
      exact layered_swap layered (fresh_ends (write_stage_fresh s.writeBusy)) (fun _ _ _ => trivial)
  | wrote at_ _ _ =>
      rw [at_] at layered
      exact layered_swap layered (fresh_ends (after_direct_write_fresh _)) (fun _ _ _ => trivial)
  -- `processWrite` stays below its callback, so it must have had no close below it.
  | @completed _ op ops rest at_ _ =>
      rw [at_] at layered
      have erases : Layered (.eraseFront :: .processWrite :: rest) := by
        refine List.pairwise_cons.mpr ⟨?_, layered⟩
        intro lower member _
        rcases List.mem_cons.mp member with rfl | below
        · exact ⟨nofun, nofun⟩
        · exact (List.pairwise_cons.mp layered).1 lower below trivial
      exact layered_calm [.callback] erases (by simp [Instr.Base])
  | erased at_ | leftParked at_ _ | readAll at_ _ | parks at_ _ | cleared at_ | cleaned at_ _
  | returned at_ =>
      rw [at_] at layered
      exact layered_rest layered
  | unparked at_ _ =>
      rw [at_] at layered
      exact layered_calm [.readLoop] (layered_rest layered) (by simp [Instr.Base])
  | doneParked at_ _ =>
      rw [at_] at layered
      exact layered_calm [.callback, .clearTemp, .readLoop] (layered_rest layered)
        (by simp [Instr.Base])
  | doneRead at_ _ =>
      rw [at_] at layered
      exact layered_calm [.callback, .readLoop] (layered_rest layered)
        (by simp [Instr.Base])
  | closes at_ =>
      rw [at_] at layered
      exact layered_calm [.processRead, .cleanWrite, .dropManager, .closeStatus]
        (layered_rest layered) (by simp [Instr.Base])
  | failed at_ _ =>
      rw [at_] at layered
      exact layered_calm [.callback, .cleanWrite] (layered_rest layered)
        (by simp [Instr.Base])

theorem parked_none (none_ : s.tempReadEvent = none) : parked s = [] := by
  unfold parked
  split
  · rfl
  · rw [none_]
    rfl

theorem still_closed {looks : Instr → Bool} {instr : Instr} {rest : List Instr}
    (next : List Instr) (at_ : s.todo = instr :: rest) (blind : looks instr = false)
    (fresh : .closeStatus ∉ next) (closed : ¬Opens looks (next ++ rest)) : ¬Opens looks s.todo := by
  intro opens
  rw [at_] at opens
  exact closed (opens_swap opens blind fresh)

theorem waits_kept {instr : Instr} {rest : List Instr} (next : List Instr)
    (emptied : Emptied s) (at_ : s.todo = instr :: rest) (away : instr ≠ .eraseFront)
    (fresh : ∀ pushed ∈ next, pushed ≠ .closeStatus ∧ pushed ≠ .eraseFront)
    (todo : after.todo = next ++ rest) (waits : after.waitWriteList = s.waitWriteList) :
    .closeStatus ∈ after.todo → waiting after = [] := by
  intro closing
  rw [waiting_swap _ at_ away (fun member => (fresh _ member).2 rfl) todo waits]
  apply emptied.waits
  rw [at_]
  rw [todo] at closing
  exact List.mem_cons_of_mem _
    ((List.mem_append.mp closing).resolve_left (fun member => (fresh _ member).1 rfl))

theorem plain_blind {instr : Instr} (plain : instr.Plain) :
    looksAtReads instr = false ∧ looksAtParked instr = false ∧ looksAtWrites instr = false := by
  cases instr <;> first | exact ⟨rfl, rfl, rfl⟩ | exact plain.elim

theorem emptied_swap {instr : Instr} {next rest : List Instr} (emptied : Emptied s)
    (at_ : s.todo = instr :: rest) (plain : instr.Plain) (fresh : ∀ pushed ∈ next, pushed.Fresh)
    (todo : after.todo = next ++ rest) (readList : after.readList = s.readList)
    (temp : after.tempReadEvent = s.tempReadEvent) (writeList : after.writeList = s.writeList)
    (waits : after.waitWriteList = s.waitWriteList) : Emptied after := by
  have unclosed : .closeStatus ∉ next := fun member => fresh _ member
  obtain ⟨reads, parks, writes⟩ := plain_blind plain
  have kept {looks : Instr → Bool} (blind : looks instr = false)
      (closed : ¬Opens looks after.todo) : ¬Opens looks s.todo := by
    rw [todo] at closed
    exact still_closed _ at_ blind unclosed closed
  refine ⟨?_, ?_, ?_, ?_⟩
  · intro closed
    rw [readList]
    exact emptied.reads (kept reads closed)
  · intro closed
    rw [parked_swap _ at_ (by rintro rfl; exact plain) (fun member => fresh _ member) todo temp]
    exact emptied.parks (kept parks closed)
  · intro closed
    rw [writeList]
    exact emptied.writes (kept writes closed)
  · exact waits_kept _ emptied at_ (by rintro rfl; exact plain)
      (fun pushed member => fresh_ends fresh pushed member) todo waits

theorem loop_emptied (emptied : Emptied s) (layered : Layered s.todo)
    (allowed : Orderly s (.loop input)) (step : LoopStep s input after) : Emptied after := by
  obtain ⟨turn, clean⟩ := allowed
  have base {instr : Instr} {rest : List Instr} (at_ : s.todo = instr :: rest) (base : instr.Base) :
      .closeStatus ∉ rest := by
    rw [at_] at layered
    exact (base_unclosed layered base).1
  cases step with
  | goes at_ plain fresh _ _ => exact emptied_swap emptied at_ plain fresh rfl rfl rfl rfl rfl
  | connected at_ connects =>
      exact emptied_swap emptied at_ (connects_plain connects).1 (handler_fresh s) rfl rfl rfl rfl
        rfl
  | staged at_ =>
      exact emptied_swap emptied at_ trivial (write_stage_fresh s.writeBusy) rfl rfl rfl rfl rfl
  | wrote at_ _ _ =>
      exact emptied_swap emptied at_ trivial (after_direct_write_fresh _) rfl rfl rfl rfl rfl
  | flushed at_ _ =>
      apply unclosed_emptied
      have below := base at_ trivial
      simp [below]
  | completed at_ _ =>
      apply unclosed_emptied
      have below := base at_ trivial
      simp [below]
  | erased at_ => exact unclosed_emptied (base at_ trivial)
  | unparked at_ none_ =>
      refine ⟨fun closed => absurd (.inl rfl) closed, fun _ => parked_none none_, ?_, ?_⟩
      · exact fun closed => emptied.writes (still_closed [.readLoop] at_ rfl (by simp) closed)
      · exact waits_kept [.readLoop] emptied at_ nofun (by simp) rfl rfl
  | @doneParked op rest at_ _ =>
      have clearing : Instr.clearTemp ∈ .callback :: .clearTemp :: .readLoop :: rest := by simp
      refine ⟨?_, fun _ => parked_clearing clearing, ?_, ?_⟩
      · intro closed
        exact absurd (.inr ⟨nofun, .inr ⟨nofun, .inl rfl⟩⟩) closed
      · exact fun closed => emptied.writes
          (still_closed [.callback, .clearTemp, .readLoop] at_ rfl (by simp) closed)
      · exact waits_kept [.callback, .clearTemp, .readLoop] emptied at_ nofun (by simp) rfl rfl
  | leftParked at_ parked_ =>
      have left := clean.1
      rw [at_, parked_] at left
      exact unclosed_emptied (left rfl (Option.some_ne_none _) rfl)
  | readAll at_ none_ =>
      refine ⟨fun _ => none_, ?_, ?_, ?_⟩
      · intro closed
        refine Eq.trans ?_ (emptied.parks (still_closed [] at_ rfl List.not_mem_nil closed))
        exact parked_swap [] at_ nofun List.not_mem_nil rfl rfl
      · exact fun closed => emptied.writes (still_closed [] at_ rfl List.not_mem_nil closed)
      · exact waits_kept [] emptied at_ nofun (by simp) rfl rfl
  | doneRead at_ listed =>
      have none_ := read_in_turn turn at_ listed
      refine ⟨?_, fun _ => parked_none none_, ?_, ?_⟩
      · intro closed
        exact absurd (.inr ⟨nofun, .inl rfl⟩) closed
      · exact fun closed => emptied.writes
          (still_closed [.callback, .readLoop] at_ rfl (by simp) closed)
      · exact waits_kept [.callback, .readLoop] emptied at_ nofun (by simp) rfl rfl
  | parks at_ listed =>
      have left := clean.2.1
      rw [at_, listed] at left
      exact unclosed_emptied (left rfl (List.cons_ne_nil _ _) rfl)
  | cleared at_ =>
      refine ⟨?_, fun _ => parked_none rfl, ?_, ?_⟩
      · exact fun closed => emptied.reads (still_closed [] at_ rfl List.not_mem_nil closed)
      · exact fun closed => emptied.writes (still_closed [] at_ rfl List.not_mem_nil closed)
      · exact waits_kept [] emptied at_ nofun (by simp) rfl rfl
  | closes at_ =>
      have starts := clean.2.2
      rw [at_] at starts
      refine ⟨fun closed => absurd (.inl rfl) closed, fun closed => absurd (.inl rfl) closed, ?_, ?_⟩
      · intro closed
        exact absurd (.inr ⟨nofun, .inl rfl⟩) closed
      · intro _
        refine Eq.trans ?_ (starts rfl)
        exact waiting_swap [.processRead, .cleanWrite, .dropManager, .closeStatus] at_ nofun
          (by simp) rfl rfl
  | cleaned at_ none_ =>
      refine ⟨?_, ?_, fun _ => none_, ?_⟩
      · exact fun closed => emptied.reads (still_closed [] at_ rfl List.not_mem_nil closed)
      · intro closed
        refine Eq.trans ?_ (emptied.parks (still_closed [] at_ rfl List.not_mem_nil closed))
        exact parked_swap [] at_ nofun List.not_mem_nil rfl rfl
      · exact waits_kept [] emptied at_ nofun (by simp) rfl rfl
  | failed at_ _ =>
      refine ⟨?_, ?_, ?_, ?_⟩
      · exact fun closed => emptied.reads
          (still_closed [.callback, .cleanWrite] at_ rfl (by simp) closed)
      · intro closed
        refine Eq.trans ?_ (emptied.parks
          (still_closed [.callback, .cleanWrite] at_ rfl (by simp) closed))
        exact parked_swap [.callback, .cleanWrite] at_ nofun (by simp) rfl rfl
      · intro closed
        exact absurd (.inr ⟨nofun, .inl rfl⟩) closed
      · exact waits_kept [.callback, .cleanWrite] emptied at_ nofun (by simp) rfl rfl
  | returned at_ =>
      -- An outer close finds the lists as the inner one leaves them.
      obtain ⟨reads, parks, writes, waits⟩ := returning_empty emptied at_
      refine ⟨fun _ => reads, fun _ => ?_, fun _ => writes, fun _ => ?_⟩
      · rw [← parks]
        exact parked_swap [] at_ nofun List.not_mem_nil rfl rfl
      · rw [← waits]
        exact waiting_swap [] at_ nofun List.not_mem_nil rfl rfl

section Sum
variable {op : Op}

@[simp] theorem notified_process (log : List Entry) (op : Op) :
    notifiedOps (log ++ [.process op]) = notifiedOps log := by
  simp [notifiedOps, notifiedOp]

@[simp] theorem notified_notify (log : List Entry) (op : Op) (result : ResultType) :
    notifiedOps (log ++ [.notify op result]) = notifiedOps log ++ [op] := by
  simp [notifiedOps, notifiedOp]

theorem summed_moved (summed : Summed s) (log : notifiedOps after.log = notifiedOps s.log)
    (moved : (pending after).Perm (pending s)) (accepted : after.accepted = s.accepted) :
    Summed after := by
  rw [Summed, log, accepted]
  exact (moved.append_left _).trans summed

theorem summed_notified (summed : Summed s)
    (log : notifiedOps after.log = notifiedOps s.log ++ [op])
    (left : (op :: pending after).Perm (pending s)) (accepted : after.accepted = s.accepted) :
    Summed after := by
  rw [Summed, log, accepted, List.append_assoc]
  exact (left.append_left _).trans summed

theorem summed_pushed (summed : Summed s) (log : after.log = s.log)
    (pushed : (pending after).Perm (pending s ++ [op]))
    (accepted : after.accepted = s.accepted ++ [op]) : Summed after := by
  rw [Summed, log, accepted]
  refine (pushed.append_left _).trans ?_
  rw [← List.append_assoc]
  exact summed.append_right [op]

theorem pending_swap {instr : Instr} {rest : List Instr} (next : List Instr)
    (at_ : s.todo = instr :: rest) (plain : instr ≠ .clearTemp ∧ instr ≠ .eraseFront)
    (fresh : .clearTemp ∉ next ∧ .eraseFront ∉ next) (todo : after.todo = next ++ rest)
    (temp : after.tempReadEvent = s.tempReadEvent) (readList : after.readList = s.readList)
    (writeList : after.writeList = s.writeList) (waits : after.waitWriteList = s.waitWriteList) :
    pending after = pending s := by
  rw [pending, pending, parked_swap next at_ plain.1 fresh.1 todo temp, readList, writeList,
    waiting_swap next at_ plain.2 fresh.2 todo waits]

end Sum

theorem plain_ends {instr : Instr} (plain : instr.Plain) :
    instr ≠ .clearTemp ∧ instr ≠ .eraseFront := by
  constructor
  · rintro rfl
    exact plain
  · rintro rfl
    exact plain

theorem summed_swap {instr : Instr} {rest : List Instr} (next : List Instr) (summed : Summed s)
    (at_ : s.todo = instr :: rest) (plain : instr ≠ .clearTemp ∧ instr ≠ .eraseFront)
    (fresh : .clearTemp ∉ next ∧ .eraseFront ∉ next) (todo : after.todo = next ++ rest)
    (temp : after.tempReadEvent = s.tempReadEvent) (readList : after.readList = s.readList)
    (writeList : after.writeList = s.writeList) (waits : after.waitWriteList = s.waitWriteList)
    (log : notifiedOps after.log = notifiedOps s.log) (accepted : after.accepted = s.accepted) :
    Summed after := by
  have same : pending after = pending s :=
    pending_swap next at_ plain fresh todo temp readList writeList waits
  exact summed_moved summed log (.of_eq same) accepted

theorem flushed_summed {writeBuffer : IoBuffer.Buf} {op : Op} {ops : List Op} {rest : List Instr}
    (summed : Summed s) (at_ : s.todo = .writeFlush :: rest) (listed : s.writeList = op :: ops)
    (below : .eraseFront ∉ rest) :
    Summed { s.record (.process op) with
      writeList := ops
      writeBuffer
      waitWriteList := s.waitWriteList ++ [op]
      todo := .writeFlush :: rest } := by
  have quiet : .eraseFront ∉ s.todo := by
    rw [at_]
    exact List.not_mem_cons_of_ne_of_not_mem nofun below
  refine summed_moved summed (notified_process _ _) ?_ rfl
  rw [pending, pending, waiting_quiet quiet, waiting_quiet (by rw [← at_]; exact quiet), listed]
  have same : parked { s.record (.process op) with
      writeList := ops
      writeBuffer
      waitWriteList := s.waitWriteList ++ [op]
      todo := .writeFlush :: rest } = parked s :=
    parked_swap [.writeFlush] at_ nofun (by simp) rfl rfl
  rw [same]
  change (parked s ++ s.readList ++ ops ++ (s.waitWriteList ++ [op])).Perm _
  rw [← List.append_assoc, List.append_assoc _ (op :: ops)]
  refine (List.perm_append_singleton op _).trans ?_
  rw [List.append_assoc _ ops]
  exact List.perm_middle.symm

theorem completed_summed {op : Op} {ops : List Op} {rest : List Instr} (summed : Summed s)
    (at_ : s.todo = .processWrite :: rest) (listed : s.waitWriteList = op :: ops)
    (below : .eraseFront ∉ rest) :
    Summed { s.record (.notify op .done) with
      haveWrite := s.haveWrite - op.size
      todo := .callback :: .eraseFront :: .processWrite :: rest } := by
  have quiet : .eraseFront ∉ s.todo := by
    rw [at_]
    exact List.not_mem_cons_of_ne_of_not_mem nofun below
  refine summed_notified summed (notified_notify _ _ _) ?_ rfl
  have same : parked { s.record (.notify op .done) with
      haveWrite := s.haveWrite - op.size
      todo := .callback :: .eraseFront :: .processWrite :: rest } = parked s :=
    parked_swap [.callback, .eraseFront, .processWrite] at_ nofun (by simp) rfl rfl
  rw [pending, pending, same, waiting_quiet quiet, waiting_erasing (by simp)]
  change (op :: (parked s ++ s.readList ++ s.writeList ++ s.waitWriteList.tail)).Perm _
  rw [listed]
  exact List.perm_middle.symm

theorem erased_summed {rest : List Instr} (summed : Summed s) (at_ : s.todo = .eraseFront :: rest)
    (below : .eraseFront ∉ rest) :
    Summed { s with waitWriteList := s.waitWriteList.tail, todo := rest } := by
  have erasing : .eraseFront ∈ s.todo := by
    rw [at_]
    exact List.mem_cons_self
  have same : parked { s with waitWriteList := s.waitWriteList.tail, todo := rest } = parked s :=
    parked_swap [] at_ nofun List.not_mem_nil rfl rfl
  refine summed_moved summed rfl (.of_eq ?_) rfl
  rw [pending, pending, same, waiting_erasing erasing, waiting_quiet below]

theorem done_parked_summed {op : Op} {rest : List Instr} (summed : Summed s)
    (at_ : s.todo = .processRead :: rest) (parked_ : s.tempReadEvent = some op)
    (below : .clearTemp ∉ rest) :
    Summed { (s.record (.process op)).record (.notify op .done) with
      todo := .callback :: .clearTemp :: .readLoop :: rest } := by
  have quiet : .clearTemp ∉ s.todo := by
    rw [at_]
    exact List.not_mem_cons_of_ne_of_not_mem nofun below
  have log : notifiedOps (s.log ++ [.process op] ++ [.notify op .done]) =
      notifiedOps s.log ++ [op] := by
    rw [notified_notify, notified_process]
  have same : waiting { (s.record (.process op)).record (.notify op .done) with
      todo := .callback :: .clearTemp :: .readLoop :: rest } = waiting s :=
    waiting_swap [.callback, .clearTemp, .readLoop] at_ nofun (by simp) rfl rfl
  refine summed_notified summed log (.of_eq ?_) rfl
  rw [pending, pending, same, parked_clearing (by simp), parked_quiet quiet, parked_]
  rfl

theorem done_read_summed {op : Op} {ops : List Op} {rest : List Instr} (summed : Summed s)
    (at_ : s.todo = .readLoop :: rest) (listed : s.readList = op :: ops)
    (none_ : s.tempReadEvent = none) :
    Summed { (s.record (.process op)).record (.notify op .done) with
      readList := ops, todo := .callback :: .readLoop :: rest } := by
  have log : notifiedOps (s.log ++ [.process op] ++ [.notify op .done]) =
      notifiedOps s.log ++ [op] := by
    rw [notified_notify, notified_process]
  have same : waiting { (s.record (.process op)).record (.notify op .done) with
      readList := ops, todo := .callback :: .readLoop :: rest } = waiting s :=
    waiting_swap [.callback, .readLoop] at_ nofun (by simp) rfl rfl
  have here : parked { (s.record (.process op)).record (.notify op .done) with
      readList := ops, todo := .callback :: .readLoop :: rest } = [] := parked_none none_
  refine summed_notified summed log (.of_eq ?_) rfl
  rw [pending, pending, same, here, parked_none none_, listed]
  rfl

theorem parks_summed {op : Op} {ops : List Op} {rest : List Instr} (summed : Summed s)
    (at_ : s.todo = .readLoop :: rest) (listed : s.readList = op :: ops)
    (none_ : s.tempReadEvent = none) (below : .clearTemp ∉ rest) :
    Summed { s.record (.process op) with
      readList := ops, tempReadEvent := some op, todo := rest } := by
  have same : waiting { s.record (.process op) with
      readList := ops, tempReadEvent := some op, todo := rest } = waiting s :=
    waiting_swap [] at_ nofun List.not_mem_nil rfl rfl
  refine summed_moved summed (notified_process _ _) (.of_eq ?_) rfl
  rw [pending, pending, same, parked_none none_, parked_quiet below, listed]
  rfl

theorem cleared_summed {rest : List Instr} (summed : Summed s)
    (at_ : s.todo = .clearTemp :: rest) :
    Summed { s with tempReadEvent := none, todo := rest } := by
  have clearing : .clearTemp ∈ s.todo := by
    rw [at_]
    exact List.mem_cons_self
  have same : waiting { s with tempReadEvent := none, todo := rest } = waiting s :=
    waiting_swap [] at_ nofun List.not_mem_nil rfl rfl
  refine summed_moved summed rfl (.of_eq ?_) rfl
  rw [pending, pending, same, parked_none rfl, parked_clearing clearing]

theorem failed_summed {op : Op} {ops : List Op} {rest : List Instr} (summed : Summed s)
    (at_ : s.todo = .cleanWrite :: rest) (listed : s.writeList = op :: ops) :
    Summed { s.record (.notify op .ioError) with
      writeList := ops, todo := .callback :: .cleanWrite :: rest } := by
  have here : parked { s.record (.notify op .ioError) with
      writeList := ops, todo := .callback :: .cleanWrite :: rest } = parked s :=
    parked_swap [.callback, .cleanWrite] at_ nofun (by simp) rfl rfl
  have there : waiting { s.record (.notify op .ioError) with
      writeList := ops, todo := .callback :: .cleanWrite :: rest } = waiting s :=
    waiting_swap [.callback, .cleanWrite] at_ nofun (by simp) rfl rfl
  refine summed_notified summed (notified_notify _ _ _) ?_ rfl
  rw [pending, pending, here, there, listed]
  rw [List.append_assoc _ ops, List.append_assoc _ (op :: ops)]
  exact List.perm_middle.symm

theorem loop_summed (summed : Summed s) (ordered : Ordered s) (layered : Layered s.todo)
    (turn : InTurn s (.loop input)) (step : LoopStep s input after) : Summed after := by
  have base {instr : Instr} {rest : List Instr} (at_ : s.todo = instr :: rest) (base : instr.Base) :
      .eraseFront ∉ rest := by
    rw [at_] at layered
    exact (base_unclosed layered base).2
  have calm {next : List Instr} (fresh : ∀ pushed ∈ next, pushed.Fresh) :
      .clearTemp ∉ next ∧ .eraseFront ∉ next :=
    ⟨fun member => fresh _ member, fun member => fresh _ member⟩
  cases step with
  | goes at_ plain fresh _ _ =>
      exact summed_swap _ summed at_ (plain_ends plain) (calm fresh) rfl rfl rfl rfl rfl rfl rfl
  | connected at_ connects =>
      exact summed_swap _ summed at_ (plain_ends (connects_plain connects).1)
        (calm (handler_fresh s)) rfl rfl rfl rfl rfl rfl rfl
  | staged at_ =>
      exact summed_swap _ summed at_ ⟨nofun, nofun⟩ (calm (write_stage_fresh s.writeBusy)) rfl rfl
        rfl rfl rfl rfl rfl
  | wrote at_ _ _ =>
      exact summed_swap _ summed at_ ⟨nofun, nofun⟩ (calm (after_direct_write_fresh _)) rfl rfl rfl
        rfl rfl rfl rfl
  | unparked at_ none_ =>
      exact summed_swap [.readLoop] summed at_ ⟨nofun, nofun⟩ (by simp) rfl rfl rfl rfl rfl rfl rfl
  | readAll at_ _ | cleaned at_ _ | returned at_ =>
      exact summed_swap [] summed at_ ⟨nofun, nofun⟩ (by simp) rfl rfl rfl rfl rfl rfl rfl
  | leftParked at_ _ =>
      exact summed_swap [] summed at_ ⟨nofun, nofun⟩ (by simp) rfl rfl rfl rfl rfl
        (notified_process _ _) rfl
  | closes at_ =>
      exact summed_swap [.processRead, .cleanWrite, .dropManager, .closeStatus] summed at_
        ⟨nofun, nofun⟩ (by simp) rfl rfl rfl rfl rfl rfl rfl
  | flushed at_ listed => exact flushed_summed summed at_ listed (base at_ trivial)
  | completed at_ listed => exact completed_summed summed at_ listed (base at_ trivial)
  | erased at_ => exact erased_summed summed at_ (base at_ trivial)
  | doneParked at_ parked_ =>
      exact done_parked_summed summed at_ parked_ (parked_in_turn turn at_ parked_)
  | doneRead at_ listed =>
      exact done_read_summed summed at_ listed (read_in_turn turn at_ listed)
  | parks at_ listed =>
      have none_ := read_in_turn turn at_ listed
      have quiet : .clearTemp ∉ s.todo := fun clearing => ordered.clearing clearing none_
      rw [at_] at quiet
      exact parks_summed summed at_ listed none_ (List.not_mem_of_not_mem_cons quiet)
  | cleared at_ => exact cleared_summed summed at_
  | failed at_ listed => exact failed_summed summed at_ listed

theorem loop_log (step : LoopStep s input after) : s.log <+: after.log := by
  cases step with
  | doneParked _ _ | doneRead _ _ =>
      exact (List.prefix_append _ _).trans (List.prefix_append _ _)
  | flushed _ _ | completed _ _ | leftParked _ _ | parks _ _ | failed _ _ =>
      exact List.prefix_append _ _
  | _ => exact List.prefix_rfl

theorem nothing_pending (before : Summed s) (summed : Summed after)
    (accepted : after.accepted = s.accepted) (log : s.log <+: after.log)
    (none_ : pending s = []) : pending after = [] := by
  have more : (notifiedOps s.log).length ≤ (notifiedOps after.log).length :=
    (log.filterMap notifiedOp).length_le
  have total := before.length_eq.trans (congrArg List.length accepted.symm)
  rw [← summed.length_eq, none_, List.append_nil, List.length_append] at total
  apply List.eq_nil_of_length_eq_zero
  omega

theorem loop_returned (before : Summed s) (summed : Summed after) (emptied : Emptied s)
    (returned : s.closeReturned = true → pending s = []) (step : LoopStep s input after) :
    after.closeReturned = true → pending after = [] := by
  have kept := nothing_pending before summed (loop_same step).1 (loop_log step)
  cases step with
  | returned at_ =>
      obtain ⟨reads, parks, writes, waits⟩ := returning_empty emptied at_
      intro _
      apply kept
      rw [pending, reads, parks, writes, waits]
      rfl
  | _ => exact fun closed => kept (returned closed)

structure Clean (s : Tcp θ) : Prop where
  layered : Layered s.todo
  emptied : Emptied s
  summed : Summed s
  returned : s.closeReturned = true → pending s = []

theorem loop_clean (clean : Clean s) (ordered : Ordered s) (allowed : Orderly s (.loop input))
    (step : LoopStep s input after) : Clean after := by
  have summed := loop_summed clean.summed ordered clean.layered allowed.1 step
  exact ⟨loop_layered clean.layered step, loop_emptied clean.emptied clean.layered allowed step,
    summed, loop_returned clean.summed summed clean.emptied clean.returned step⟩

theorem pushed_last (front : List Op) (op : Op) (back : List Op) :
    (front ++ [op] ++ back).Perm (front ++ back ++ [op]) := by
  rw [List.append_assoc, List.append_assoc]
  exact List.perm_append_comm.append_left front

theorem call_clean {made : Call} (clean : Clean s) (moves : callMove s made = some after) :
    Clean after := by
  obtain ⟨_, _, summed, returned⟩ := clean
  obtain ⟨idle, readyToWrite, next, fresh, rfl⟩ := call_steps moves
  have ends := fresh_ends fresh
  have calm : .clearTemp ∉ next := fun member => fresh _ member
  have unerased : .eraseFront ∉ next := fun member => fresh _ member
  have same : pending { s with readyToWrite, todo := next } = pending s := by
    rw [pending, pending, waiting_quiet unerased, parked_quiet calm,
      waiting_quiet (by rw [idle]; exact List.not_mem_nil),
      parked_quiet (by rw [idle]; exact List.not_mem_nil)]
  refine ⟨?_, unclosed_emptied (fun closing => fresh _ closing), ?_, ?_⟩
  · exact List.pairwise_of_forall_mem_list (fun _ _ lower member _ => ends lower member)
  · exact summed_moved summed rfl (.of_eq same) rfl
  · rw [same]
    exact returned

section Threads
variable [DecidableEq θ] {t : θ}

theorem register_clean (clean : Clean s)
    (inTime : ∀ op, s.threads t = .pushing op → InTime s.todo op.type)
    (step : RegisterStep s t after) : Clean after := by
  obtain ⟨layered, emptied, summed, returned⟩ := clean
  cases step with
  | begun _ _ _ | refused _ | passed _ | announced _ =>
      exact ⟨layered, ⟨emptied.reads, emptied.parks, emptied.writes, emptied.waits⟩, summed, returned⟩
  | @pushedRead op pc type =>
      -- The close has still to look at this list, or there is none.
      have opens := inTime op pc
      rw [type] at opens
      refine ⟨layered, ?_, ?_, nofun⟩
      · exact ⟨fun closed => absurd opens closed, emptied.parks, emptied.writes, emptied.waits⟩
      · refine summed_pushed summed rfl ?_ rfl
        change (parked s ++ (s.readList ++ [op]) ++ s.writeList ++ waiting s).Perm _
        rw [← List.append_assoc, pending, List.append_assoc _ s.writeList,
          List.append_assoc _ s.writeList]
        exact pushed_last _ op _
  | @pushedWrite op pc type =>
      have opens := inTime op pc
      rw [type] at opens
      refine ⟨layered, ?_, ?_, nofun⟩
      · exact ⟨emptied.reads, emptied.parks, fun closed => absurd opens closed, emptied.waits⟩
      · refine summed_pushed summed rfl ?_ rfl
        change (parked s ++ s.readList ++ (s.writeList ++ [op]) ++ waiting s).Perm _
        rw [← List.append_assoc]
        exact pushed_last _ op _

theorem step_clean {move : Move θ} (clean : Clean s) (ordered : Ordered s)
    (allowed : Orderly s move) (moves : (tcpLoop θ).step s move after) : Clean after := by
  cases move with
  | call made => exact call_clean clean moves
  | loop input => exact loop_clean clean ordered allowed (loop_steps moves)
  | register t type ioId size =>
      refine register_clean clean ?_ (register_steps moves)
      intro op pushing
      rw [register_idle moves] at pushing
      cases pushing
  | advance t =>
      refine register_clean clean ?_ (advance_steps moves)
      intro op pushing
      have inTime := allowed.2
      rw [ClosesClean, pushing] at inTime
      exact inTime

/-- In an orderly run, when a close has returned and nothing has been accepted since,
every accepted operation has been notified exactly once. -/
theorem all_notified_at_close (reached : ReachableBy (tcpLoop θ) Orderly s)
    (closed : s.closeReturned = true) :
    ∀ op ∈ s.accepted, (notifiedOps s.log).count op = 1 := by
  have kept : InOrder s ∧ Clean s := by
    apply invariant _ _ reached
    · rintro state ⟨fd, status, connectHandler, mem, rfl⟩
      refine ⟨initially_in_order fd status connectHandler mem, ?_⟩
      exact ⟨List.Pairwise.nil, unclosed_emptied List.not_mem_nil, .refl _, nofun⟩
    · rintro before move after ⟨inOrder, clean⟩ allowed moves
      exact ⟨step_in_order inOrder allowed.1 moves, step_clean clean inOrder.1 allowed moves⟩
  obtain ⟨⟨_, _, distinct⟩, clean⟩ := kept
  have summed := clean.summed
  rw [Summed, clean.returned closed, List.append_nil] at summed
  intro op member
  rw [summed.count_eq]
  exact List.count_eq_one_of_mem distinct.once member

end Threads

def untilClose : List (Move Unit) :=
  [.register () .read (-1) 0, .advance (), .advance (), .register () .write (-1) 2, .advance (),
    .advance (), .advance (), .call .close, .loop .returns, .loop (.processed true)]

def writeCleaned : List (Move Unit) := List.replicate 5 (.loop .returns)

def closedClean : Tcp Unit :=
  (afterMoves Orderly .connected blankMem (untilClose ++
    [.loop (.processed true), .loop .returns, .loop (.processed true)] ++ writeCleaned)).get
    (by decide +kernel)

theorem all_notified_at_close_both : (notifiedOps closedClean.log).count ⟨0, .read, 0⟩ = 1 ∧
    (notifiedOps closedClean.log).count ⟨1, .write, 2⟩ = 1 := by
  have notified := all_notified_at_close (s := closedClean) (moves_reachable (by decide +kernel))
    (by decide +kernel)
  exact ⟨notified _ (by decide +kernel), notified _ (by decide +kernel)⟩

def leftParked : Tcp Unit :=
  (afterMoves (fun _ _ => True) .connected blankMem (untilClose ++
    [.loop (.processed false)] ++ writeCleaned)).get (by decide +kernel)

theorem dropped_at_close : Reachable (tcpLoop Unit) leftParked ∧
    leftParked.closeReturned = true ∧ leftParked.todo = [] ∧ ⟨0, .read, 0⟩ ∈ leftParked.accepted ∧
      (notifiedOps leftParked.log).count ⟨0, .read, 0⟩ = 0 :=
  ⟨moves_reachable (by decide +kernel), by decide +kernel, by decide +kernel, by decide +kernel,
    by decide +kernel⟩

end Npoller.CloseCleanup
