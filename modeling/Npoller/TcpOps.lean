import Npoller.TcpLoop

/-!
What holds of the operations of a tcp instance in every run: each list keeps the
operations of its direction, and no operation is accepted twice.
-/

namespace Npoller.TcpLoop

open IoWrite StepSystem

variable {θ : Type*} {s after : Tcp θ} {input : Input}

/-- The operation that a call of `do_register` has not pushed yet. -/
def RegisterPc.op : RegisterPc → Option Op
  | .checking pushed | .pushing pushed => some pushed
  | .idle | .announcing => none

structure Sorted (s : Tcp θ) : Prop where
  reads : ∀ op ∈ s.readList, op.type = .read
  parked : ∀ op, s.tempReadEvent = some op → op.type = .read
  writes : ∀ op ∈ s.writeList, op.type = .write
  waits : ∀ op ∈ s.waitWriteList, op.type = .write

/-- The calls of `do_register` have different operations, each accepted once. -/
structure Distinct (s : Tcp θ) : Prop where
  once : s.accepted.Nodup
  older : ∀ op ∈ s.accepted, op.id < s.nextId
  carried : ∀ t op, (s.threads t).op = some op → op.id < s.nextId ∧ op ∉ s.accepted
  apart : ∀ t u op, (s.threads t).op = some op → (s.threads u).op = some op → t = u

theorem loop_sorted (sorted : Sorted s) (step : LoopStep s input after) : Sorted after := by
  have fewer {op : Op} {ops list : List Op} {type : OperationType} (listed : list = op :: ops)
      (typed : ∀ op ∈ list, op.type = type) : op.type = type ∧ ∀ op ∈ ops, op.type = type := by
    rw [listed] at typed
    exact List.forall_mem_cons.mp typed
  cases step with
  | goes _ _ _ _ _ | connected _ _ | staged _ | wrote _ _ _ | completed _ _ | unparked _ _
  | doneParked _ _ | leftParked _ _ | readAll _ _ | closes _ | cleaned _ _ | returned _ =>
      exact ⟨sorted.reads, sorted.parked, sorted.writes, sorted.waits⟩
  | flushed _ listed =>
      obtain ⟨first, others⟩ := fewer listed sorted.writes
      refine ⟨sorted.reads, sorted.parked, others, ?_⟩
      intro op member
      rcases List.mem_append.mp member with earlier | new
      · exact sorted.waits op earlier
      · rw [List.mem_singleton.mp new]
        exact first
  | erased _ =>
      exact ⟨sorted.reads, sorted.parked, sorted.writes,
        fun op member => sorted.waits op (List.mem_of_mem_tail member)⟩
  | doneRead _ listed =>
      exact ⟨(fewer listed sorted.reads).2, sorted.parked, sorted.writes, sorted.waits⟩
  | parks _ listed =>
      obtain ⟨first, others⟩ := fewer listed sorted.reads
      refine ⟨others, ?_, sorted.writes, sorted.waits⟩
      rintro op ⟨rfl⟩
      exact first
  | cleared _ => exact ⟨sorted.reads, nofun, sorted.writes, sorted.waits⟩
  | failed _ listed =>
      exact ⟨sorted.reads, sorted.parked, (fewer listed sorted.writes).2, sorted.waits⟩

theorem loop_same (step : LoopStep s input after) :
    after.accepted = s.accepted ∧ after.nextId = s.nextId ∧ after.threads = s.threads := by
  cases step <;> exact ⟨rfl, rfl, rfl⟩

theorem distinct_same (distinct : Distinct s) (accepted : after.accepted = s.accepted)
    (nextId : after.nextId = s.nextId) (threads : after.threads = s.threads) : Distinct after := by
  refine ⟨?_, ?_, ?_, ?_⟩
  · rw [accepted]
    exact distinct.once
  · rw [accepted, nextId]
    exact distinct.older
  · rw [accepted, nextId, threads]
    exact distinct.carried
  · rw [threads]
    exact distinct.apart

section Threads
variable [DecidableEq θ] {t : θ}

theorem register_sorted (sorted : Sorted s) (step : RegisterStep s t after) : Sorted after := by
  have more {op : Op} {list : List Op} {type : OperationType} (typed : ∀ op ∈ list, op.type = type)
      (new : op.type = type) : ∀ other ∈ list ++ [op], other.type = type := by
    intro other member
    rcases List.mem_append.mp member with earlier | last
    · exact typed other earlier
    · rw [List.mem_singleton.mp last]
      exact new
  cases step with
  | begun _ _ _ | refused _ | passed _ | announced _ =>
      exact ⟨sorted.reads, sorted.parked, sorted.writes, sorted.waits⟩
  | pushedRead _ type => exact ⟨more sorted.reads type, sorted.parked, sorted.writes, sorted.waits⟩
  | pushedWrite _ type => exact ⟨sorted.reads, sorted.parked, more sorted.writes type, sorted.waits⟩

theorem distinct_set {pc : RegisterPc} (distinct : Distinct s)
    (keeps : ∀ op, pc.op = some op → (s.threads t).op = some op) : Distinct (s.setThread t pc) := by
  have earlier (u : θ) (op : Op) (carries : ((s.setThread t pc).threads u).op = some op) :
      (s.threads u).op = some op := by
    by_cases mine : u = t
    · subst mine
      rw [set_thread_self] at carries
      exact keeps op carries
    · rwa [set_thread_other _ _ mine] at carries
  refine ⟨distinct.once, distinct.older, ?_, ?_⟩
  · exact fun u op carries => distinct.carried u op (earlier u op carries)
  · exact fun u v op first second => distinct.apart u v op (earlier u op first) (earlier v op second)

theorem distinct_push {op : Op} {pc : RegisterPc} (distinct : Distinct s)
    (carries : (s.threads t).op = some op) (done : pc.op = none) :
    Distinct ({ s with accepted := s.accepted ++ [op] }.setThread t pc) := by
  obtain ⟨young, new⟩ := distinct.carried t op carries
  have others (u : θ) (other : Op)
      (holds : (({ s with accepted := s.accepted ++ [op] }.setThread t pc).threads u).op =
        some other) : u ≠ t ∧ (s.threads u).op = some other := by
    by_cases mine : u = t
    · subst mine
      rw [set_thread_self, done] at holds
      cases holds
    · rw [set_thread_other _ _ mine] at holds
      exact ⟨mine, holds⟩
  refine ⟨?_, ?_, ?_, ?_⟩
  · apply List.nodup_append.mpr
    refine ⟨distinct.once, List.nodup_singleton op, ?_⟩
    rintro other member last same rfl
    rw [List.mem_singleton.mp same] at member
    exact new member
  · intro other member
    rcases List.mem_append.mp member with earlier | last
    · exact distinct.older other earlier
    · rw [List.mem_singleton.mp last]
      exact young
  · intro u other holds
    obtain ⟨away, carried⟩ := others u other holds
    obtain ⟨id, absent⟩ := distinct.carried u other carried
    refine ⟨id, ?_⟩
    intro member
    rcases List.mem_append.mp member with earlier | last
    · exact absent earlier
    · rw [List.mem_singleton.mp last] at carried
      exact away (distinct.apart u t op carried carries)
  · intro u v other first second
    exact distinct.apart u v other (others u other first).2 (others v other second).2

theorem register_distinct (distinct : Distinct s) (step : RegisterStep s t after) :
    Distinct after := by
  cases step with
  | begun type size pc =>
      -- Every id given so far is smaller than `next_id`.
      have fresh (u : θ) (op : Op) (mine : u ≠ t)
          (carries : (s.threads u).op = some op) : op.id ≠ s.nextId := by
        exact Nat.ne_of_lt (distinct.carried u op carries).1
      have here (u : θ) (op : Op) (holds : (({ s with nextId := s.nextId + 1 }.setThread t
          (.checking ⟨s.nextId, type, size⟩)).threads u).op = some op) :
          u = t ∧ op = ⟨s.nextId, type, size⟩ ∨ u ≠ t ∧ (s.threads u).op = some op := by
        by_cases mine : u = t
        · subst mine
          rw [set_thread_self] at holds
          cases holds
          exact .inl ⟨rfl, rfl⟩
        · rw [set_thread_other _ _ mine] at holds
          exact .inr ⟨mine, holds⟩
      refine ⟨distinct.once, ?_, ?_, ?_⟩
      · exact fun op member => Nat.lt_succ_of_lt (distinct.older op member)
      · intro u op holds
        rcases here u op holds with ⟨_, rfl⟩ | ⟨_, carries⟩
        · refine ⟨Nat.lt_succ_self _, ?_⟩
          intro member
          exact Nat.lt_irrefl _ (distinct.older _ member)
        · obtain ⟨id, absent⟩ := distinct.carried u op carries
          exact ⟨Nat.lt_succ_of_lt id, absent⟩
      · intro u v op first second
        rcases here u op first with ⟨rfl, rfl⟩ | ⟨away, carries⟩
        · rcases here v _ second with ⟨rfl, _⟩ | ⟨other, carries⟩
          · rfl
          · exact absurd rfl (fresh v _ other carries)
        · rcases here v op second with ⟨rfl, rfl⟩ | ⟨_, later⟩
          · exact absurd rfl (fresh u _ away carries)
          · exact distinct.apart u v op carries later
  | refused _ => exact distinct_set distinct nofun
  | passed pc =>
      apply distinct_set distinct
      rintro op ⟨rfl⟩
      rw [pc]
      rfl
  | @pushedRead op pc _ =>
      have pushed : Distinct ({ s with accepted := s.accepted ++ [op] }.setThread t .idle) :=
        distinct_push distinct (by rw [pc]; rfl) rfl
      exact ⟨pushed.once, pushed.older, pushed.carried, pushed.apart⟩
  | @pushedWrite op pc _ =>
      have pushed : Distinct ({ s with accepted := s.accepted ++ [op] }.setThread t .announcing) :=
        distinct_push distinct (by rw [pc]; rfl) rfl
      exact ⟨pushed.once, pushed.older, pushed.carried, pushed.apart⟩
  | announced _ =>
      have kept : Distinct (s.setThread t .idle) := distinct_set distinct nofun
      exact ⟨kept.once, kept.older, kept.carried, kept.apart⟩

theorem step_sorted {move : Move θ} (sorted : Sorted s)
    (moves : (tcpLoop θ).step s move after) : Sorted after := by
  cases move with
  | call made =>
      obtain ⟨_, readyToWrite, next, _, rfl⟩ := call_steps moves
      exact ⟨sorted.reads, sorted.parked, sorted.writes, sorted.waits⟩
  | loop input => exact loop_sorted sorted (loop_steps moves)
  | register t type ioId size => exact register_sorted sorted (register_steps moves)
  | advance t => exact register_sorted sorted (advance_steps moves)

theorem step_distinct {move : Move θ} (distinct : Distinct s)
    (moves : (tcpLoop θ).step s move after) : Distinct after := by
  cases move with
  | call made =>
      obtain ⟨_, readyToWrite, next, _, rfl⟩ := call_steps moves
      exact distinct_same distinct rfl rfl rfl
  | loop input =>
      obtain ⟨accepted, nextId, threads⟩ := loop_same (loop_steps moves)
      exact distinct_same distinct accepted nextId threads
  | register t type ioId size => exact register_distinct distinct (register_steps moves)
  | advance t => exact register_distinct distinct (advance_steps moves)

end Threads

end Npoller.TcpLoop
