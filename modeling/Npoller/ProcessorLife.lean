import Npoller.EventLoop

/-!
An event processor from its constructor on. The member initialisers start the worker
thread, which waits in `init` until `status` tells what became of the constructor's body.
A processor whose body has failed never has a loop, and its destructor writes to a
`pipe_fd` that nobody has set.
-/

namespace Npoller.ProcessorLife

open EventLoop StepSystem

/-- `status_code` as long as there is no loop. -/
inductive Early where
  | initializing
  | initialized
  | invalid
  | readyClose
  deriving DecidableEq, Repr

inductive BodyPc where
  | testEpfd
  | storeInvalid
  | makePipe
  | storeUnpiped
  | closeEpfd
  | makeBuffer
  | addPipe
  | storeInitialized
  | awaitWorker
  | returned
  deriving DecidableEq, Repr

inductive InitPc where
  | exchange
  | storeId
  | process
  | returned
  deriving DecidableEq, Repr

/-- `early` is `status` up to the first store of the loop; `destructor` is that of a
processor without a loop, whose `failed` is `worker.~thread()`, which terminates the
program; `epfd`, `piped` tell whether the descriptors are open, and `eventBuff` whether
the buffer has been made. -/
structure Processor (τ : Type*) where
  epfd : Bool
  piped : Bool
  eventBuff : Bool
  listening : Bool
  workerId : Bool
  early : Early
  body : BodyPc
  worker : InitPc
  loop : Option (Loop τ)
  destructor : CloserPc

variable {τ : Type*}

/-- `epoll_create1` has been called, and the worker thread has been started. -/
def Processor.new (epfd : Bool) : Processor τ :=
  { epfd, piped := false, eventBuff := false, listening := false, workerId := false
    early := .initializing, body := .testEpfd, worker := .exchange, loop := none
    destructor := .idle }

/-- The next step of the constructor; `ok` is what a system call in it reports. -/
def Processor.construct (s : Processor τ) (ok : Bool) : Option (Processor τ) :=
  match s.body with
  | .testEpfd => some { s with body := if s.epfd then .makePipe else .storeInvalid }
  | .storeInvalid => some { s with early := .invalid, body := .returned }
  | .makePipe => some { s with piped := ok, body := if ok then .makeBuffer else .storeUnpiped }
  | .storeUnpiped => some { s with early := .invalid, body := .closeEpfd }
  | .closeEpfd => some { s with epfd := false, body := .returned }
  | .makeBuffer => some { s with eventBuff := true, body := .addPipe }
  -- A failure of `epoll_ctl` is logged, and construction goes on.
  | .addPipe => some { s with listening := ok, body := .storeInitialized }
  | .storeInitialized => some { s with early := .initialized, body := .awaitWorker }
  | .awaitWorker => some { s with body := if s.loop.isSome then .returned else .awaitWorker }
  | .returned => none

/-- `init`, with the call of `process` at its end. -/
def Processor.init (s : Processor τ) : Option (Processor τ) :=
  match s.worker with
  | .exchange =>
      match s.early with
      | .initialized => some { s with loop := some .start, worker := .storeId }
      | .invalid => some { s with worker := .returned }
      | .initializing | .readyClose => some s
  | .storeId => some { s with workerId := true, worker := .process }
  | .process | .returned => none

/-- `~event_processor` of a processor without a loop. `wrote` is what `write` reports
for whatever descriptor `pipe_fd[1]` happens to name. -/
def Processor.destroy (s : Processor τ) (wrote : Bool) : Option (Processor τ) :=
  if s.body = .returned ∧ s.loop.isNone then
    match s.destructor with
    | .idle => some { s with destructor := .checking }
    | .checking => some { s with destructor := .storing }
    | .storing => some { s with early := .readyClose, destructor := .writing }
    | .writing => some { s with destructor := if wrote then .joining else .failed }
    | .joining => if s.worker = .returned then some { s with destructor := .done } else none
    | .done | .failed => none
  else none

inductive Move (τ : Type*) where
  | construct (ok : Bool)
  | init
  | loop (move : EventLoop.Move τ)
  | destroy (wrote : Bool)

/-- The worker is in `process`, where the pipe is reported if it has been added; the others
know the processor once it is constructed. -/
def Admits (s : Processor τ) : EventLoop.Move τ → Prop
  | .worker (.poll (.events events)) =>
      s.worker = .process ∧ (.pipe ∈ events → s.listening = true)
  | .worker _ => s.worker = .process
  | .producer _ _ | .closer => s.body = .returned

instance (s : Processor τ) (move : EventLoop.Move τ) : Decidable (Admits s move) := by
  unfold Admits
  split <;> infer_instance

section Runs
variable [DecidableEq τ]

def act (capacity : Nat) (s : Processor τ) : Move τ → Option (Processor τ)
  | .construct ok => s.construct ok
  | .init => s.init
  | .loop move => do
      let loop ← s.loop
      if Admits s move then
        let after ← move.run capacity loop
        return { s with loop := some after }
      else none
  | .destroy wrote => s.destroy wrote

/-- Nothing happens in a program that has been terminated. -/
def run (capacity : Nat) (s : Processor τ) (move : Move τ) : Option (Processor τ) :=
  if s.destructor = .failed then none else act capacity s move

def processorSystem (τ : Type*) [DecidableEq τ] (capacity : Nat) :
    System (Processor τ) (Move τ) where
  init s := ∃ epfd, s = .new epfd
  step before move after := run capacity before move = some after

end Runs

structure Built (s : Processor τ) : Prop where
  epfd : s.epfd = true
  piped : s.piped = true
  eventBuff : s.eventBuff = true

def Building (s : Processor τ) : Prop :=
  match s.body with
  | .testEpfd => s.piped = false
  | .storeInvalid => s.epfd = false ∧ s.piped = false
  | .makePipe => s.epfd = true ∧ s.piped = false
  | .storeUnpiped => s.piped = false
  | .makeBuffer => s.epfd = true ∧ s.piped = true
  | .addPipe | .storeInitialized => Built s
  | .closeEpfd | .awaitWorker | .returned => False

/-- Neither descriptor is left, and the worker has seen `invalid` or is still at its
exchange. -/
structure Failed (s : Processor τ) : Prop where
  body : s.body = .closeEpfd ∨ (s.body = .returned ∧ s.epfd = false)
  piped : s.piped = false
  early : s.early = .invalid ∨ s.early = .readyClose
  looks : s.worker = .exchange ∨ s.worker = .returned
  loop : s.loop = none
  outside : s.body = .closeEpfd → s.destructor = .idle
  joined : s.destructor = .done → s.worker = .returned

section Failures
variable {s after : Processor τ}

theorem construct_failed {ok : Bool} (failed : Failed s) (moved : s.construct ok = some after) :
    Failed after := by
  unfold Processor.construct at moved
  rcases failed.body with body | ⟨body, _⟩
  · rw [body] at moved
    cases moved
    refine ⟨.inr ⟨rfl, rfl⟩, failed.piped, failed.early, failed.looks, failed.loop, ?_,
      failed.joined⟩
    exact fun _ => failed.outside body
  · rw [body] at moved
    cases moved

theorem construct_awaits {ok : Bool} (body : s.body = .awaitWorker)
    (moved : s.construct ok = some after) :
    after = { s with body := if s.loop.isSome then .returned else .awaitWorker } := by
  unfold Processor.construct at moved
  rw [body] at moved
  exact (Option.some.inj moved).symm

theorem init_failed (failed : Failed s) (moved : s.init = some after) :
    Failed after := by
  unfold Processor.init at moved
  rcases failed.looks with init | init
  · rw [init] at moved
    rcases failed.early with early | early
    · rw [early] at moved
      cases moved
      exact ⟨failed.body, failed.piped, .inl rfl, .inr rfl, failed.loop, failed.outside,
        fun _ => rfl⟩
    · rw [early] at moved
      cases moved
      exact failed
  · rw [init] at moved
    cases moved

theorem destroy_failed {wrote : Bool} (failed : Failed s) (moved : s.destroy wrote = some after) :
    Failed after := by
  unfold Processor.destroy at moved
  split at moved
  · rename_i outside
    -- What the destructor does leaves everything else alone, but for its store.
    have frame (early : Early) (pc : CloserPc) (stored : early = .invalid ∨ early = .readyClose)
        (joined : pc = .done → s.worker = .returned) :
        Failed { s with early, destructor := pc } := by
      refine ⟨failed.body, failed.piped, stored, failed.looks, failed.loop, fun body => ?_, joined⟩
      cases body.symm.trans outside.1
    cases pc : s.destructor with
    | idle | checking =>
        rw [pc] at moved
        cases moved
        exact frame s.early _ failed.early (fun done => by cases done)
    | storing =>
        rw [pc] at moved
        cases moved
        exact frame .readyClose .writing (.inr rfl) (fun done => by cases done)
    | writing =>
        rw [pc] at moved
        cases moved
        exact frame s.early _ failed.early (fun done => by cases wrote <;> cases done)
    | joining =>
        rw [pc] at moved
        dsimp only at moved
        split at moved
        · rename_i left
          cases moved
          exact frame s.early .done failed.early (fun _ => left)
        · cases moved
    | done | failed =>
        rw [pc] at moved
        cases moved
  · cases moved

theorem destroy_idle {wrote : Bool} (impossible : ¬(s.body = .returned ∧ s.loop.isNone)) :
    s.destroy wrote = none := if_neg impossible

end Failures

section Stages
variable [DecidableEq τ] {capacity : Nat}

inductive Stage (capacity : Nat) (s : Processor τ) : Prop where
  | building (building : Building s) (early : s.early = .initializing) (init : s.worker = .exchange)
      (loop : s.loop = none) (outside : s.destructor = .idle)
  | failed (failed : Failed s)
  | built (built : Built s) (body : s.body = .awaitWorker) (early : s.early = .initialized)
      (init : s.worker = .exchange) (loop : s.loop = none) (outside : s.destructor = .idle)
  | running (loop : Loop τ) (has : s.loop = some loop) (built : Built s)
      (body : s.body = .awaitWorker ∨ s.body = .returned)
      (reached : Reachable (loopSystem τ capacity) loop)
      (init : s.worker = .storeId ∨ (s.worker = .process ∧ s.workerId = true))
      (outside : s.destructor = .idle)

variable {s after : Processor τ}

theorem construct_building {ok : Bool} (building : Building s) (early : s.early = .initializing)
    (init : s.worker = .exchange) (loop : s.loop = none) (outside : s.destructor = .idle)
    (moved : s.construct ok = some after) : Stage capacity after := by
  unfold Processor.construct at moved
  unfold Building at building
  cases body : s.body with
  | testEpfd =>
      rw [body] at moved building
      cases moved
      refine .building ?_ early init loop outside
      cases epfd : s.epfd with
      | true => exact ⟨rfl, building⟩
      | false => exact ⟨rfl, building⟩
  | storeInvalid =>
      rw [body] at moved building
      cases moved
      exact .failed ⟨.inr ⟨rfl, building.1⟩, building.2, .inl rfl, .inl init, loop,
        fun _ => outside, fun done => by cases outside.symm.trans done⟩
  | makePipe =>
      rw [body] at moved building
      cases moved
      refine .building ?_ early init loop outside
      cases ok with
      | true => exact ⟨building.1, rfl⟩
      | false => exact rfl
  | storeUnpiped =>
      rw [body] at moved building
      cases moved
      exact .failed ⟨.inl rfl, building, .inl rfl, .inl init, loop, fun _ => outside,
        fun done => by cases outside.symm.trans done⟩
  | makeBuffer =>
      rw [body] at moved building
      cases moved
      exact .building ⟨building.1, building.2, rfl⟩ early init loop outside
  | addPipe =>
      rw [body] at moved building
      cases moved
      exact .building ⟨building.epfd, building.piped, building.eventBuff⟩ early init loop outside
  | storeInitialized =>
      rw [body] at moved building
      cases moved
      exact .built ⟨building.epfd, building.piped, building.eventBuff⟩ rfl rfl init loop outside
  | closeEpfd | awaitWorker | returned =>
      rw [body] at building
      exact building.elim

theorem act_loop {move : EventLoop.Move τ} (moved : act capacity s (.loop move) = some after) :
    ∃ loop next, s.loop = some loop ∧ Admits s move ∧ move.run capacity loop = some next ∧
      after = { s with loop := some next } := by
  cases has : s.loop with
  | none =>
      rw [act, has] at moved
      cases moved
  | some loop =>
      simp only [act, has, Option.bind_eq_bind, Option.bind_some] at moved
      split at moved
      · rename_i admits
        cases later : move.run capacity loop with
        | none =>
            rw [later] at moved
            cases moved
        | some next =>
            rw [later] at moved
            exact ⟨loop, next, rfl, admits, later, (Option.some.inj moved).symm⟩
      · cases moved

theorem act_stage {move : Move τ} (stage : Stage capacity s)
    (moved : act capacity s move = some after) : Stage capacity after := by
  cases stage with
  | building building early init loop outside =>
      cases move with
      | construct ok => exact construct_building building early init loop outside moved
      | init =>
          rw [act, Processor.init, init, early] at moved
          cases moved
          exact .building building early init loop outside
      | loop move =>
          obtain ⟨_, _, has, _⟩ := act_loop moved
          cases loop.symm.trans has
      | destroy wrote =>
          have inside : s.body ≠ .returned := by
            intro body
            rwa [Building, body] at building
          rw [act, destroy_idle (fun both => inside both.1)] at moved
          cases moved
  | failed failed =>
      cases move with
      | construct ok => exact .failed (construct_failed failed moved)
      | init => exact .failed (init_failed failed moved)
      | loop move =>
          obtain ⟨_, _, has, _⟩ := act_loop moved
          cases failed.loop.symm.trans has
      | destroy wrote => exact .failed (destroy_failed failed moved)
  | built built body early init loop outside =>
      cases move with
      | construct ok =>
          rw [construct_awaits body moved, loop]
          exact .built ⟨built.epfd, built.piped, built.eventBuff⟩ rfl early init rfl outside
      | init =>
          rw [act, Processor.init, init, early] at moved
          cases moved
          exact .running .start rfl ⟨built.epfd, built.piped, built.eventBuff⟩ (.inl body)
            (.start rfl) (.inl rfl) outside
      | loop move =>
          obtain ⟨_, _, has, _⟩ := act_loop moved
          cases loop.symm.trans has
      | destroy wrote =>
          rw [act, destroy_idle (fun both => by cases body.symm.trans both.1)] at moved
          cases moved
  | running loop has built body reached init outside =>
      cases move with
      | construct ok =>
          rcases body with body | body
          · rw [construct_awaits body moved]
            refine .running loop has ⟨built.epfd, built.piped, built.eventBuff⟩ (.inr ?_) reached
              init outside
            rw [has]
            rfl
          · rw [act, Processor.construct, body] at moved
            cases moved
      | init =>
          rw [act, Processor.init] at moved
          rcases init with init | ⟨init, _⟩
          · rw [init] at moved
            cases moved
            exact .running loop has ⟨built.epfd, built.piped, built.eventBuff⟩ body reached
              (.inr ⟨rfl, rfl⟩) outside
          · rw [init] at moved
            cases moved
      | loop move =>
          obtain ⟨old, next, same, _, later, rfl⟩ := act_loop moved
          cases has.symm.trans same
          exact .running next rfl ⟨built.epfd, built.piped, built.eventBuff⟩ body
            (reachable_next reached later) init outside
      | destroy wrote =>
          rw [act, destroy_idle (fun both => by rw [has] at both; cases both.2)] at moved
          cases moved

theorem run_acts {move : Move τ} (moved : run capacity s move = some after) :
    act capacity s move = some after := by
  unfold run at moved
  split at moved
  · cases moved
  · exact moved

theorem reachable_stage (reached : Reachable (processorSystem τ capacity) s) :
    Stage capacity s := by
  induction reached with
  | start begins =>
      obtain ⟨epfd, rfl⟩ := begins
      exact .building rfl rfl rfl rfl rfl
  | next _ _ moves ih => exact act_stage ih (run_acts moves)

/-- A loop runs on a processor that is built, in a run of its own from `Loop.start`, and
its tasks find the thread they run on in `worker_id`. Its descriptors are open then and
ever after, as `close` is empty. -/
theorem loop_runs_built (reached : Reachable (processorSystem τ capacity) s) {loop : Loop τ}
    (has : s.loop = some loop) :
    Reachable (loopSystem τ capacity) loop ∧ (s.epfd = true ∧ s.piped = true ∧ s.eventBuff = true) ∧
      (s.worker = .process → s.workerId = true) := by
  cases reachable_stage reached with
  | building _ _ _ none_ _ | built _ _ _ _ none_ _ => cases none_.symm.trans has
  | failed failed => cases failed.loop.symm.trans has
  | running other same built _ runs init _ =>
      cases same.symm.trans has
      refine ⟨runs, ⟨built.epfd, built.piped, built.eventBuff⟩, fun inside => ?_⟩
      rcases init with early | ⟨_, id⟩
      · cases early.symm.trans inside
      · exact id

def laterSystem (capacity : Nat) (start : Processor τ) : System (Processor τ) (Move τ) :=
  { processorSystem τ capacity with init := fun s => s = start }

/-- The worker has missed `invalid`, which the destructor has overwritten. -/
structure Spinning (s : Processor τ) : Prop where
  failed : Failed s
  early : s.early = .readyClose
  init : s.worker = .exchange

theorem act_spinning {move : Move τ} (spinning : Spinning s)
    (moved : act capacity s move = some after) : Spinning after := by
  obtain ⟨failed, early, init⟩ := spinning
  cases move with
  | construct ok =>
      have later := construct_failed failed moved
      rw [act, Processor.construct] at moved
      rcases failed.body with body | ⟨body, _⟩
      · rw [body] at moved
        cases moved
        exact ⟨later, early, init⟩
      · rw [body] at moved
        cases moved
  | init =>
      rw [act, Processor.init, init, early] at moved
      cases moved
      exact ⟨failed, early, init⟩
  | loop move =>
      obtain ⟨_, _, has, _⟩ := act_loop moved
      cases failed.loop.symm.trans has
  | destroy wrote =>
      have later := destroy_failed failed moved
      rw [act, Processor.destroy] at moved
      split at moved
      · split at moved
        · cases moved
          exact ⟨later, early, init⟩
        · cases moved
          exact ⟨later, early, init⟩
        · cases moved
          exact ⟨later, rfl, init⟩
        · cases moved
          exact ⟨later, early, init⟩
        · rw [if_neg (fun left => by cases init.symm.trans left)] at moved
          cases moved
        · cases moved
        · cases moved
      · cases moved

/-- A constructor that returns without a loop has left no descriptor. Where the
destructor stores `ready_close` before the worker has seen `invalid`, the worker looks
at `status` for ever, and the destructor does not finish. -/
theorem failed_destruction (reached : Reachable (processorSystem τ capacity) s)
    (returned : s.body = .returned) (without : s.loop = none) :
    (s.epfd = false ∧ s.piped = false) ∧ (s.destructor = .done → s.worker = .returned) ∧
      (s.early = .readyClose → s.worker = .exchange →
        ∀ t, Reachable (laterSystem capacity s) t →
          t.worker = .exchange ∧ t.destructor ≠ .done) := by
  cases reachable_stage reached with
  | building building _ _ _ _ =>
      rw [Building, returned] at building
      exact building.elim
  | built _ body _ _ _ _ => cases body.symm.trans returned
  | running loop has _ _ _ _ _ => cases has.symm.trans without
  | failed failed =>
      have closed : s.epfd = false := by
        rcases failed.body with body | ⟨_, closed⟩
        · cases body.symm.trans returned
        · exact closed
      refine ⟨⟨closed, failed.piped⟩, failed.joined, fun early init t later => ?_⟩
      have spinning : Spinning t := by
        induction later with
        | start begins => exact begins ▸ ⟨failed, early, init⟩
        | next _ _ moves ih => exact act_spinning ih (run_acts moves)
      refine ⟨spinning.init, fun done => ?_⟩
      cases spinning.init.symm.trans (spinning.failed.joined done)

end Stages

section Deafness
variable {loop next : Loop τ}

def Unheard : WorkerPc → Prop
  | .storeWorking (.events events) | .dispatch events | .running (.dispatch events) =>
      .pipe ∉ events
  | .loadStatus _ _ | .storeStop => False
  | _ => True

structure Deaf (loop : Loop τ) : Prop where
  worker : Unheard loop.worker
  flag : loop.closeFlag = false
  status : loop.status ≠ .stopWork

theorem worker_deaf {move : WorkerMove} (deaf : Deaf loop)
    (silent : ∀ events, move = .poll (.events events) → .pipe ∉ events)
    (moved : workerMove loop move = some next) : Deaf next := by
  obtain ⟨worker, flag, status⟩ := deaf
  cases worker_steps moved with
  | storeReadyWaiting pc => exact ⟨trivial, flag, Status.noConfusion⟩
  | startLocal pc listed | startMerged pc listed | startTask pc listed | noLocal pc empty
  | throws pc stuck | noTask pc empty | noWrite pc empty | someWrite pc | takeWrite pc listed
  | missWrite pc | stays pc _ => exact ⟨trivial, flag, status⟩
  | callTask pc | callWrite fd pc => exact ⟨worker, flag, status⟩
  | @resume after pc =>
      refine ⟨?_, flag, status⟩
      rw [pc] at worker
      cases after with
      | dispatch events => exact worker
      | mergeTasks | drainTasks | emptyWrites => exact trivial
  | closes pc set_ => cases flag.symm.trans set_
  | storeStop pc | loadStatus pc =>
      rw [pc] at worker
      exact worker.elim
  | storeWaiting pc => exact ⟨trivial, flag, Status.noConfusion⟩
  | @poll polled pc ready =>
      refine ⟨?_, flag, status⟩
      cases polled with
      | interrupted | failed => exact trivial
      | events events =>
          -- Only `poll` starts from `epoll_wait`.
          cases move with
          | poll other =>
              rw [workerMove] at moved
              split at moved
              · have same := congrArg Loop.worker (Option.some.inj moved)
                cases WorkerPc.storeWorking.inj same
                exact silent events rfl
              · cases moved
          | advance | addTask | addWrite =>
              simp only [workerMove, advance, pc] at moved
              cases moved
  | @storeWorking polled pc =>
      refine ⟨?_, flag, Status.noConfusion⟩
      rw [pc] at worker
      cases polled with
      | interrupted | failed => exact trivial
      | events events => exact worker
  | batchDone pc => exact ⟨trivial, flag, status⟩
  | readPipe pc listed | readNothing pc empty =>
      rw [pc] at worker
      exact absurd (List.mem_cons_self ..) worker
  | processIo pc =>
      rw [pc] at worker
      exact ⟨fun member => worker (List.mem_cons_of_mem _ member), flag, status⟩

variable [DecidableEq τ] {capacity : Nat} {s after : Processor τ}

theorem producer_deaf {p : τ} {move : ProducerMove} (deaf : Deaf loop)
    (moved : producerMove capacity loop p move = some next) : Deaf next := by
  obtain ⟨worker, flag, status⟩ := deaf
  cases producer_steps moved with
  | callTask pc | callWrite fd pc | count pc | pushTask pc | pushWrite pc | alert pc rests =>
      exact ⟨worker, flag, status⟩
  | @skip item pc _ | @signal item pc => cases item <;> exact ⟨worker, flag, status⟩

omit [DecidableEq τ] in
theorem closer_deaf (deaf : Deaf loop) (moved : closerMove capacity loop = some next) :
    Deaf next := by
  obtain ⟨worker, flag, status⟩ := deaf
  cases closer_steps moved with
  | store pc => exact ⟨worker, flag, Status.noConfusion⟩
  | call pc | stopped pc | proceed pc | write pc room | full pc | join pc =>
      exact ⟨worker, flag, status⟩

omit [DecidableEq τ] in
theorem construct_frame {ok : Bool} (moved : s.construct ok = some after) :
    after.loop = s.loop ∧ (after.listening = s.listening ∨ s.body = .addPipe) := by
  unfold Processor.construct at moved
  cases body : s.body <;> rw [body] at moved <;> cases moved <;> exact ⟨rfl, by simp⟩

theorem act_deaf {move : Move τ} (stage : Stage capacity s)
    (deaf : s.listening = false → ∀ loop, s.loop = some loop → Deaf loop)
    (moved : act capacity s move = some after) :
    after.listening = false → ∀ loop, after.loop = some loop → Deaf loop := by
  intro missing loop has
  cases move with
  | construct ok =>
      obtain ⟨same, kept⟩ := construct_frame moved
      rw [same] at has
      rcases kept with kept | body
      · exact deaf (kept.symm.trans missing) loop has
      · -- While the pipe is being added there is no loop.
        cases stage with
        | building _ _ _ none_ _ | built _ _ _ _ none_ _ => cases none_.symm.trans has
        | failed failed => cases failed.loop.symm.trans has
        | running _ _ _ outside _ _ _ =>
            rw [body] at outside
            rcases outside with outside | outside <;> cases outside
  | init =>
      rw [act, Processor.init] at moved
      split at moved
      · split at moved
        · cases moved
          cases has
          exact ⟨trivial, rfl, Status.noConfusion⟩
        all_goals
          cases moved
          exact deaf missing loop has
      · cases moved
        exact deaf missing loop has
      · cases moved
      · cases moved
  | loop move =>
      obtain ⟨old, next, before, admits, later, rfl⟩ := act_loop moved
      cases has
      have was := deaf missing old before
      cases move with
      | worker move =>
          refine worker_deaf was (fun events same heard => ?_) later
          subst same
          exact Bool.false_ne_true (missing.symm.trans (admits.2 heard))
      | producer p move => exact producer_deaf was later
      | closer => exact closer_deaf was later
  | destroy wrote =>
      rw [act, Processor.destroy] at moved
      split at moved
      · rename_i outside
        have none_ : s.loop = none := Option.isNone_iff_eq_none.mp outside.2
        have same : after.loop = s.loop := by
          cases pc : s.destructor <;> rw [pc] at moved <;> dsimp only at moved
          case joining =>
            split at moved
            · cases moved
              rfl
            · cases moved
          all_goals
            cases moved
            try rfl
        rw [same, none_] at has
        cases has
      · cases moved

theorem reachable_deaf (reached : Reachable (processorSystem τ capacity) s) :
    s.listening = false → ∀ loop, s.loop = some loop → Deaf loop := by
  induction reached with
  | start begins =>
      obtain ⟨epfd, rfl⟩ := begins
      exact fun _ _ has => by cases has
  | next before _ moves ih => exact act_deaf (reachable_stage before) ih (run_acts moves)

/-- Where the pipe could not be added to the epoll set, which the constructor does not
mind, the loop never reads it: it does not learn of its destruction and never stores
`stop_work`. -/
theorem deaf_never_closes (reached : Reachable (processorSystem τ capacity) s)
    (missing : s.listening = false) {loop : Loop τ} (has : s.loop = some loop) :
    (∀ byte events, loop.worker ≠ .loadStatus byte events) ∧ loop.closeFlag = false ∧
      loop.worker ≠ .storeStop ∧ loop.status ≠ .stopWork := by
  have deaf := reachable_deaf reached missing loop has
  have worker := deaf.worker
  refine ⟨fun byte events pc => ?_, deaf.flag, fun pc => ?_, deaf.status⟩
  · rw [pc] at worker
    exact worker
  · rw [pc] at worker
    exact worker

end Deafness

/-- The constructor returns, and the worker enters `process` and stores `ready_waiting`. -/
def constructed : List (Move Bool) :=
  [.construct true, .construct true, .construct true, .construct true, .construct true, .init,
    .construct true, .init, .loop (.worker .advance)]

theorem constructed_run : (constructed.foldlM (run 65536) (.new true)).isSome = true := by decide

theorem loop_runs_built_constructed :
    ((constructed.foldlM (run 65536) (.new true)).get constructed_run).epfd = true := by
  have reached : Reachable (processorSystem Bool 65536)
      ((constructed.foldlM (run 65536) (.new true)).get constructed_run) :=
    fold_reachable (fun _ _ _ moved => ⟨trivial, moved⟩) (.start ⟨true, rfl⟩)
      (Option.some_get constructed_run).symm
  have has : ((constructed.foldlM (run 65536) (.new true)).get constructed_run).loop =
      some { (.start : Loop Bool) with status := .readyWaiting, worker := .mergeTasks } := rfl
  exact (loop_runs_built reached has).2.1.1

def unheard : List (Move Bool) :=
  [.construct true, .construct true, .construct true, .construct false, .construct true, .init,
    .construct true, .init] ++ List.replicate 6 (.loop (.worker .advance))

theorem unheard_run : (unheard.foldlM (run 65536) (.new true)).isSome = true := by decide

theorem deaf_never_closes_unheard :
    ∃ loop, ((unheard.foldlM (run 65536) (.new true)).get unheard_run).loop = some loop ∧
      loop.closeFlag = false := by
  have reached : Reachable (processorSystem Bool 65536)
      ((unheard.foldlM (run 65536) (.new true)).get unheard_run) :=
    fold_reachable (fun _ _ _ moved => ⟨trivial, moved⟩) (.start ⟨true, rfl⟩)
      (Option.some_get unheard_run).symm
  exact ⟨_, rfl, (deaf_never_closes reached rfl rfl).2.1⟩

/-- `pipe2` fails, and the destructor stores `ready_close` before the worker has looked. -/
def unpiped : List (Move Bool) :=
  [.construct true, .construct false, .construct true, .construct true, .destroy true,
    .destroy true, .destroy true]

theorem unpiped_run : (unpiped.foldlM (run 65536) (.new true)).isSome = true := by decide

theorem failed_destruction_unpiped :
    ((unpiped.foldlM (run 65536) (.new true)).get unpiped_run).destructor = .writing ∧ ∀ t,
      Reachable (laterSystem 65536 ((unpiped.foldlM (run 65536) (.new true)).get unpiped_run)) t →
        t.destructor ≠ .done := by
  have reached : Reachable (processorSystem Bool 65536)
      ((unpiped.foldlM (run 65536) (.new true)).get unpiped_run) :=
    fold_reachable (fun _ _ _ moved => ⟨trivial, moved⟩) (.start ⟨true, rfl⟩)
      (Option.some_get unpiped_run).symm
  exact ⟨rfl, fun t later => ((failed_destruction reached rfl rfl).2.2 rfl rfl t later).2⟩

end Npoller.ProcessorLife
