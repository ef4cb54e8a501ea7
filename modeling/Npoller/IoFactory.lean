import Npoller.Descriptors
import Npoller.TaskAccount

/-!
`io_factory` on its event loop. Any thread asks for an instance by a task; the promise or
the callback it has given travels with the task, and is destroyed with it where
`add_task` drops the task. What the futures and the callbacks get is kept as answers, in
the order in which they come, each with what its task has found out. `add_io` looks at
the `status` that the loop has then.
-/

namespace Npoller.IoFactory

open Descriptors EventLoop IoCreation IoMap StepSystem TaskAccount

/-- `create_io_async` and `create_io_with_callback`, and the two of a tcp with an address. -/
inductive Request where
  | async
  | callback
  | asyncAddress
  | callbackAddress
  deriving DecidableEq, Repr

/-- `broken` is the future of a promise that was destroyed unsatisfied; `connecting` is a
callback that `set_connect_callback` keeps, and that only `connect` may call. -/
inductive Answer (ι : Type*) where
  | value (x : Option ι)
  | exception (what : String)
  | broken
  | called (x : Option ι) (message : String)
  | connecting (x : ι)
  | uncalled
  deriving DecidableEq, Repr

variable {τ π ι : Type*}

/-- What the task of a request finds out: a constructor has thrown, there is an instance,
which is open or not, or there is none. The `message` is that of `errno` then. -/
inductive Finding (ι : Type*) where
  | threw (what : String)
  | made (x : ι) (isOpen : Bool) (message : String)
  | refused (message : String)
  | unrun
  deriving DecidableEq, Repr

/-- The callback of a request with an address is called with `nullptr`; that of
`create_io_async` makes an exception of the message. -/
def Request.fails (request : Request) (message : String) : Answer ι :=
  match request with
  | .async => .value none
  | .callback | .callbackAddress => .called none message
  | .asyncAddress => .exception message

/-- `create_io_in_eventloop` has returned; `isOpen` is asked where there is an address. -/
def Request.returned (request : Request) (x : Option ι) (isOpen : Bool) (message : String) :
    Answer ι :=
  match x with
  | none => request.fails message
  | some x =>
      match request with
      | .async => .value (some x)
      | .callback => .called (some x) ""
      | .asyncAddress | .callbackAddress =>
          if isOpen then .connecting x else request.fails message

/-- An instance could not be constructed. Nobody catches the exception where there is an
address, and the callback goes with the task. -/
def Request.thrown (request : Request) (what : String) : Answer ι :=
  match request with
  | .async => .exception what
  | .callback => .called none what
  | .asyncAddress => .broken
  | .callbackAddress => .uncalled

/-- The task is destroyed before it has run. -/
def Request.dropped (request : Request) : Answer ι :=
  match request with
  | .async | .asyncAddress => .broken
  | .callback | .callbackAddress => .uncalled

/-- What a task finds when it runs: a constructor throws, or the system calls report. -/
inductive Creation (π ι : Type*) where
  | throws (what : String)
  | general (x : ι) (io : Io π) (first second : CtlResult) (deleted : Bool) (message : String)
  | acceptor (x : ι) (fd : Int) (fcntl binds listens : Bool) (first second : CtlResult)
      (deleted : Bool) (message : String)

/-- `requests` are the creations among the tasks. -/
structure Factory (τ π ι : Type*) where
  loop : Loop τ
  life : Life π ι
  requests : TaskId → Option Request
  answers : List (TaskId × Finding ι × Answer ι)

/-- The test on `status` in `add_io`. -/
def Factory.runs (s : Factory τ π ι) : Bool :=
  s.loop.status = .working || s.loop.status = .readyWaiting

section Runs
variable [DecidableEq π] [DecidableEq ι]

/-- The creation in the life of the instances, with its outcome. -/
def Creation.op (p : π) (running : Bool) : Creation π ι → Option (LifeOp π ι)
  | .throws _ => none
  | .general x io first second deleted _ => some (.create p x io running first second deleted)
  | .acceptor x fd fcntl binds listens first second deleted _ =>
      some (.createAcceptor p x fd fcntl binds listens running first second deleted)

def Factory.answer (s : Factory τ π ι) (task : TaskId) (finding : Finding ι) (answer : Answer ι) :
    Factory τ π ι :=
  { s with answers := s.answers ++ [(task, finding, answer)] }

/-- The outcome of a creation, and what it leaves. A program that `add_io` has ended
answers nobody. -/
def Factory.conclude (s : Factory τ π ι) (task : TaskId) (request : Request) (x : ι)
    (message : String) (outcome : Outcome) (life : Life π ι) : Option (Factory τ π ι) :=
  match outcome with
  | .made =>
      let isOpen := decide (life.io x).IsOpen
      some (({ s with life }).answer task (.made x isOpen message)
        (request.returned (some x) isOpen message))
  | .refused =>
      some (({ s with life }).answer task (.refused message) (request.returned none false message))
  | .terminated _ => none

def Factory.execute (s : Factory τ π ι) (p : π) (task : TaskId) (request : Request) :
    Creation π ι → Option (Factory τ π ι)
  | .throws what => some (s.answer task (.threw what) (request.thrown what))
  | .general x io first second deleted message =>
      let answer := (openFd s.life.process io.fd).createIo p x io s.runs first second deleted
      s.conclude task request x message answer.1 (s.life.created x io.fd answer)
  | .acceptor x fd fcntl binds listens first second deleted message =>
      let answer := (openFd s.life.process fd).createAcceptor p x (newAcceptor fd fcntl) binds
        listens s.runs first second deleted
      s.conclude task request x message answer.1 (s.life.created x fd answer)

/-- A step of the loop or of a thread, with the request of a new task and what the task
that is started finds; or anything else that the program does with its instances. -/
inductive Move (τ π ι : Type*) where
  | loop (move : EventLoop.Move τ) (request : Option Request) (creation : Creation π ι)
  | life (op : LifeOp π ι)

def Factory.goTo (s : Factory τ π ι) (p : π) (move : EventLoop.Move τ) (request : Option Request)
    (creation : Creation π ι) (loop : Loop τ) : Option (Factory τ π ι) :=
  let requests := Function.update s.requests s.loop.nextTask request
  match move with
  | .producer _ .callTask => some { s with loop, requests }
  -- `add_task` on the worker has only counted the task, which goes out of scope.
  | .worker .addTask =>
      some { s with
        loop
        requests
        answers := s.answers ++ (request.map (s.loop.nextTask, .unrun, ·.dropped)).toList }
  | _ =>
      match loop.started.drop s.loop.started.length with
      | [] => some { s with loop }
      | task :: _ =>
          match s.requests task with
          | none => some { s with loop }
          | some request => Factory.execute { s with loop } p task request creation

variable [DecidableEq τ]

def run (capacity : Nat) (p : π) (s : Factory τ π ι) : Move τ π ι → Option (Factory τ π ι)
  | .life op => some { s with life := op.run s.life }
  | .loop move request creation =>
      (move.run capacity s.loop).bind (s.goTo p move request creation)

def Legal (p : π) (s : Factory τ π ι) : Move τ π ι → Prop
  | .life op => Possible s.life op ∧ Survives s.life op
  | .loop _ _ creation =>
      ∀ op, creation.op p s.runs = some op → Possible s.life op ∧ Survives s.life op

def factorySystem (τ π ι : Type*) [DecidableEq τ] [DecidableEq π] [DecidableEq ι]
    (capacity : Nat) (p : π) : System (Factory τ π ι) (Move τ π ι) where
  init s := s.loop = .start ∧ (lifeSystem π ι).init s.life ∧ s.requests = (fun _ => none) ∧
    s.answers = []
  step before move after := Legal p before move ∧ run capacity p before move = some after

end Runs

/-- What the one who has made the request of a task has got, and why. -/
def Factory.answersOf (s : Factory τ π ι) (task : TaskId) : List (Finding ι × Answer ι) :=
  (s.answers.filter (·.1 = task)).map Prod.snd

/-- The requests whose task catches what a constructor throws. -/
def Request.Catches (request : Request) : Prop := request = .async ∨ request = .callback

/-- Somebody is given the instance. -/
def Answer.Hands (answer : Answer ι) (x : ι) : Prop :=
  answer = .value (some x) ∨ answer = .called (some x) ""

/-- Somebody is told that there is none. -/
def Answer.Fails (answer : Answer ι) : Prop :=
  answer = .value none ∨ (∃ what, answer = .exception what) ∨
    ∃ message, answer = .called none message

/-- Nobody will ever be told. -/
def Answer.Lost (answer : Answer ι) : Prop := answer = .broken ∨ answer = .uncalled

/-- What the answer to a request says of what its task has found out. Where there is an
address nobody is given the instance here: `connect` may do that later. -/
structure Request.Gets (request : Request) (finding : Finding ι) (answer : Answer ι) : Prop where
  hands : ∀ x, answer.Hands x ↔ request.Catches ∧ ∃ isOpen message, finding = .made x isOpen message
  connects : ∀ x, answer = .connecting x ↔
    ¬request.Catches ∧ ∃ message, finding = .made x true message
  fails : answer.Fails ↔ (∃ message, finding = .refused message) ∨
    (request.Catches ∧ ∃ what, finding = .threw what) ∨
    (¬request.Catches ∧ ∃ x message, finding = .made x false message)
  lost : answer.Lost ↔ ¬request.Catches ∧ ∃ what, finding = .threw what
  address : ¬request.Catches → answer.Fails → ∃ message, answer = request.fails message ∧
    (finding = .refused message ∨ ∃ x, finding = .made x false message)

section LoopChanges
variable {s after : Loop τ}

inductive Change (s after : Loop τ) : EventLoop.Move τ → Prop where
  | asks {t : τ} (started : after.started = s.started) (next : after.nextTask = s.nextTask + 1)
      (returned : after.returned = s.returned) : Change s after (.producer t .callTask)
  | drops (started : after.started = s.started) (next : after.nextTask = s.nextTask + 1)
      (returned : after.returned = ⟨s.nextTask, true⟩ :: s.returned) :
      Change s after (.worker .addTask)
  | starts {move : EventLoop.Move τ} (task : TaskId) (own : move = .worker .advance)
      (started : after.started = s.started ++ [task]) (next : after.nextTask = s.nextTask)
      (returned : after.returned = s.returned) (status : after.status = s.status) :
      Change s after move
  | keeps {move : EventLoop.Move τ} (own : move ≠ .worker .addTask)
      (foreign : ∀ t, move ≠ .producer t .callTask) (started : after.started = s.started)
      (next : after.nextTask = s.nextTask) (calls : List Returned)
      (returned : after.returned = calls ++ s.returned)
      (others : ∀ call ∈ calls, call.byWorker = false) : Change s after move

theorem advance_changes (moved : advance s = some after) :
    Change s after (.worker .advance) := by
  have kept (started : after.started = s.started) (next : after.nextTask = s.nextTask)
      (returned : after.returned = s.returned) : Change s after (.worker .advance) :=
    .keeps (by simp) (by simp) started next [] returned (by simp)
  cases advance_steps moved with
  | startLocal pc listed | startMerged pc listed | startTask pc listed =>
      exact .starts _ rfl rfl rfl rfl rfl
  | callTask pc =>
      simp only [advance, pc] at moved
      have same := congrArg Loop.nextTask (Option.some.inj moved)
      exact absurd same (Nat.ne_of_lt (Nat.lt_succ_self _))
  | storeReadyWaiting pc | noLocal pc empty | throws pc stuck | noTask pc empty | noWrite pc empty
  | someWrite pc | takeWrite pc listed | missWrite pc | resume pc | closes pc flag | stays pc flag
  | storeStop pc | storeWaiting pc | poll pc ready | storeWorking pc | batchDone pc
  | readPipe pc listed | readNothing pc empty | processIo pc | loadStatus pc | callWrite fd pc =>
      exact kept rfl rfl rfl

variable [DecidableEq τ] {capacity : Nat}

theorem move_changes {move : EventLoop.Move τ} (moved : move.run capacity s = some after) :
    Change s after move := by
  cases move with
  | worker move =>
      cases move with
      | advance => exact advance_changes moved
      | poll polled =>
          simp only [EventLoop.Move.run, workerMove] at moved
          split at moved
          · cases moved
            exact .keeps (by simp) (by simp) rfl rfl [] rfl (by simp)
          · cases moved
      | addTask =>
          simp only [EventLoop.Move.run, workerMove] at moved
          split at moved
          · cases moved
            exact .drops rfl rfl rfl
          · cases moved
      | addWrite fd =>
          simp only [EventLoop.Move.run, workerMove] at moved
          split at moved
          · cases moved
            exact .keeps (by simp) (by simp) rfl rfl [] rfl (by simp)
          · cases moved
  | producer t move =>
      cases move with
      | callTask =>
          simp only [EventLoop.Move.run, producerMove] at moved
          split at moved
          · cases moved
            exact .asks rfl rfl rfl
          · cases moved
      | callWrite fd =>
          simp only [EventLoop.Move.run, producerMove] at moved
          split at moved
          · cases moved
            exact .keeps (by simp) (by simp) rfl rfl [] rfl (by simp)
          · cases moved
      | advance =>
          have finish {loop : Loop τ} (item : Item) (same : loop.started = s.started)
              (next : loop.nextTask = s.nextTask) (returned : loop.returned = s.returned) :
              Change s (loop.finishCall t item) (.producer t .advance) := by
            cases item with
            | task task =>
                exact .keeps (by simp) (by simp) same next [⟨task, false⟩]
                  (congrArg (_ :: ·) returned) (by simp)
            | write fd => exact .keeps (by simp) (by simp) same next [] returned (by simp)
          cases producer_advance_steps moved with
          | callTask pc | callWrite fd pc =>
              simp only [EventLoop.Move.run, producerMove, pc] at moved
              cases moved
          | count pc | pushTask pc | pushWrite pc | alert pc rests =>
              exact .keeps (by simp) (by simp) rfl rfl [] rfl (by simp)
          | @skip item pc works => exact finish item rfl rfl rfl
          | @signal item pc => exact finish item rfl rfl rfl
  | closer =>
      have step : CloserStep capacity s after := closer_steps moved
      cases step with
      | call pc | stopped pc | proceed pc | store pc | write pc room | full pc | join pc =>
          exact .keeps (by simp) (by simp) rfl rfl [] rfl (by simp)

theorem reachable_accounted (reached : Reachable (loopSystem τ capacity) s) : Accounted s := by
  apply loop_invariant start_accounted _ _ _ reached
  · exact fun _ _ holds step => worker_accounted holds step
  · exact fun _ _ _ holds step => producer_accounted holds step
  · exact fun _ _ holds step => closer_accounted holds step

end LoopChanges

section Answers
variable {s after : Factory τ π ι}

theorem answers_append (new : List (TaskId × Finding ι × Answer ι)) (task : TaskId) :
    ({ s with answers := s.answers ++ new }).answersOf task =
      s.answersOf task ++ (new.filter (·.1 = task)).map Prod.snd := by
  simp [Factory.answersOf]

theorem answers_here (task : TaskId) (finding : Finding ι) (answer : Answer ι) :
    (s.answer task finding answer).answersOf task = s.answersOf task ++ [(finding, answer)] := by
  refine (answers_append _ task).trans ?_
  simp

theorem answers_elsewhere {task other : TaskId} (finding : Finding ι) (answer : Answer ι)
    (apart : other ≠ task) :
    (s.answer task finding answer).answersOf other = s.answersOf other := by
  refine (answers_append _ other).trans ?_
  simp [apart.symm]

theorem returned_gets (request : Request) (x : ι) (isOpen : Bool) (message : String) :
    request.Gets (.made x isOpen message) (request.returned (some x) isOpen message) := by
  cases request with
  | async | callback =>
      constructor <;> simp [Request.returned, Request.Catches, Answer.Hands, Answer.Fails,
        Answer.Lost, eq_comm]
  | asyncAddress | callbackAddress =>
      cases isOpen <;> constructor <;> simp [Request.returned, Request.fails, Request.Catches,
        Answer.Hands, Answer.Fails, Answer.Lost, eq_comm]

theorem refused_gets (request : Request) (message : String) :
    request.Gets (.refused message) (request.returned (none : Option ι) false message) := by
  cases request <;> constructor <;> simp [Request.returned, Request.fails, Request.Catches,
    Answer.Hands, Answer.Fails, Answer.Lost]

theorem thrown_gets (request : Request) (what : String) :
    request.Gets (.threw what) (request.thrown what : Answer ι) := by
  cases request <;> constructor <;> simp [Request.thrown, Request.Catches, Answer.Hands,
    Answer.Fails, Answer.Lost]

variable [DecidableEq π] [DecidableEq ι] {p : π}

theorem execute_answers {task : TaskId} {request : Request} {creation : Creation π ι}
    (ran : s.execute p task request creation = some after) :
    ∃ finding answer life, after = ({ s with life }).answer task finding answer ∧
      request.Gets finding answer ∧
      (life = s.life ∨ ∃ op, creation.op p s.runs = some op ∧ life = op.run s.life) := by
  have concludes {x : ι} {message : String} {outcome : Outcome} {life : Life π ι}
      (ends : s.conclude task request x message outcome life = some after) :
      ∃ finding answer, after = ({ s with life }).answer task finding answer ∧
        request.Gets finding answer := by
    cases outcome with
    | made =>
        cases ends
        exact ⟨_, _, rfl, returned_gets ..⟩
    | refused =>
        cases ends
        exact ⟨_, _, rfl, refused_gets ..⟩
    | terminated what => cases ends
  cases creation with
  | throws what =>
      cases ran
      exact ⟨_, _, s.life, rfl, thrown_gets .., .inl rfl⟩
  | general x io first second deleted message =>
      obtain ⟨finding, answer, same, gets⟩ := concludes ran
      exact ⟨finding, answer, _, same, gets, .inr ⟨_, rfl, rfl⟩⟩
  | acceptor x fd fcntl binds listens first second deleted message =>
      obtain ⟨finding, answer, same, gets⟩ := concludes ran
      exact ⟨finding, answer, _, same, gets, .inr ⟨_, rfl, rfl⟩⟩

end Answers

structure Kept (s : Factory τ π ι) : Prop where
  known : ∀ task request, s.requests task = some request → task < s.loop.nextTask
  none_ : ∀ task, s.requests task = none → s.answersOf task = []
  started : ∀ task request, s.requests task = some request → task ∈ s.loop.started →
    ∃ finding answer, s.answersOf task = [(finding, answer)] ∧ request.Gets finding answer
  dropped : ∀ call ∈ s.loop.returned, call.byWorker = true → ∀ request,
    s.requests call.task = some request → s.answersOf call.task = [(.unrun, request.dropped)]
  waiting : ∀ task request, s.requests task = some request → task ∉ s.loop.started →
    (∀ call ∈ s.loop.returned, call.byWorker = true → call.task ≠ task) → s.answersOf task = []

section Keeping
variable [DecidableEq π] [DecidableEq ι] {s after : Factory τ π ι} {loop : Loop τ} {p : π}

omit [DecidableEq π] [DecidableEq ι] in
theorem quiet_kept (kept : Kept s) {calls : List Returned}
    (started : loop.started = s.loop.started) (next : loop.nextTask = s.loop.nextTask)
    (returned : loop.returned = calls ++ s.loop.returned)
    (others : ∀ call ∈ calls, call.byWorker = false) : Kept { s with loop } := by
  refine ⟨fun task request has => ?_, kept.none_, fun task request has member => ?_,
    fun call member own request has => ?_, fun task request has missing free => ?_⟩
  · rw [next]
    exact kept.known task request has
  · rw [started] at member
    exact kept.started task request has member
  · rw [returned] at member
    rcases List.mem_append.mp member with new | old
    · cases own.symm.trans (others call new)
    · exact kept.dropped call old own request has
  · rw [started] at missing
    refine kept.waiting task request has missing (fun call member own => free call ?_ own)
    rw [returned]
    exact List.mem_append_right _ member

omit [DecidableEq π] [DecidableEq ι] in
theorem new_answers (kept : Kept s) : s.answersOf s.loop.nextTask = [] := by
  apply kept.none_
  cases has : s.requests s.loop.nextTask with
  | none => rfl
  | some request => exact absurd (kept.known _ request has) (Nat.lt_irrefl _)

omit [DecidableEq π] [DecidableEq ι] in
theorem request_kept {request : Option Request} (kept : Kept s) (accounted : Accounted s.loop)
    (started : after.loop.started = s.loop.started)
    (next : after.loop.nextTask = s.loop.nextTask + 1)
    (requests : after.requests = Function.update s.requests s.loop.nextTask request)
    (others : ∀ task, task ≠ s.loop.nextTask → after.answersOf task = s.answersOf task)
    (new : after.loop.returned = s.loop.returned ∧ after.answersOf s.loop.nextTask = [] ∨
      after.loop.returned = ⟨s.loop.nextTask, true⟩ :: s.loop.returned ∧
        after.answersOf s.loop.nextTask = (request.map (.unrun, ·.dropped)).toList) :
    Kept after := by
  have here : after.requests s.loop.nextTask = request := by
    rw [requests, Function.update_self]
  have old (task : TaskId) (apart : task ≠ s.loop.nextTask) :
      after.requests task = s.requests task := by
    rw [requests, Function.update_of_ne apart]
  refine ⟨fun task asked has => ?_, fun task has => ?_, fun task asked has member => ?_,
    fun call member own asked has => ?_, fun task asked has missing free => ?_⟩
  · rw [next]
    by_cases same : task = s.loop.nextTask
    · rw [same]
      exact Nat.lt_succ_self _
    · rw [old task same] at has
      exact Nat.lt_succ_of_lt (kept.known task asked has)
  · by_cases same : task = s.loop.nextTask
    · rw [same, here] at has
      rw [same]
      rcases new with ⟨_, empty⟩ | ⟨_, answers⟩
      · exact empty
      · rw [answers, has]
        rfl
    · rw [old task same] at has
      rw [others task same]
      exact kept.none_ task has
  · rw [started] at member
    have apart := Nat.ne_of_lt (accounted.known task (List.mem_append_left _ member))
    rw [old task apart] at has
    rw [others task apart]
    exact kept.started task asked has member
  · have before (earlier : call ∈ s.loop.returned) :
        after.answersOf call.task = [(.unrun, asked.dropped)] := by
      have apart := Nat.ne_of_lt (accounted.dropped call earlier own).1
      rw [old call.task apart] at has
      rw [others call.task apart]
      exact kept.dropped call earlier own asked has
    rcases new with ⟨returned, _⟩ | ⟨returned, answers⟩
    · rw [returned] at member
      exact before member
    · rw [returned] at member
      rcases List.mem_cons.mp member with rfl | earlier
      · rw [here] at has
        rw [answers, has]
        rfl
      · exact before earlier
  · rw [started] at missing
    by_cases same : task = s.loop.nextTask
    · rw [same]
      rcases new with ⟨_, empty⟩ | ⟨returned, _⟩
      · exact empty
      · refine absurd same.symm (free ⟨s.loop.nextTask, true⟩ ?_ rfl)
        rw [returned]
        exact List.mem_cons_self ..
    · rw [old task same] at has
      rw [others task same]
      refine kept.waiting task asked has missing (fun call member own => free call ?_ own)
      rcases new with ⟨returned, _⟩ | ⟨returned, _⟩
      · rw [returned]
        exact member
      · rw [returned]
        exact List.mem_cons_of_mem _ member

omit [DecidableEq π] [DecidableEq ι] in
theorem start_kept {task : TaskId} (kept : Kept s) (accounted : Accounted after.loop)
    (started : after.loop.started = s.loop.started ++ [task])
    (next : after.loop.nextTask = s.loop.nextTask)
    (returned : after.loop.returned = s.loop.returned) (requests : after.requests = s.requests)
    (others : ∀ other, other ≠ task → after.answersOf other = s.answersOf other)
    (silent : s.requests task = none → after.answersOf task = s.answersOf task)
    (answered : ∀ request, s.requests task = some request → ∃ finding answer,
      after.answersOf task = s.answersOf task ++ [(finding, answer)] ∧
        request.Gets finding answer) :
    Kept after := by
  have handles : task ∈ handled after.loop := by
    rw [handled, started]
    simp
  have missing : task ∉ s.loop.started := by
    have once := (List.nodup_append.mp accounted.once).1
    rw [started] at once
    exact fun member => (List.nodup_append.mp once).2.2 task member task (List.mem_singleton_self _)
      rfl
  have foreign (call : Returned) (member : call ∈ s.loop.returned) (own : call.byWorker = true) :
      call.task ≠ task := by
    rintro rfl
    rw [← returned] at member
    exact (accounted.dropped call member own).2.1 handles
  refine ⟨fun other asked has => ?_, fun other has => ?_, fun other asked has member => ?_,
    fun call member own asked has => ?_, fun other asked has absent free => ?_⟩
  · rw [requests] at has
    rw [next]
    exact kept.known other asked has
  · rw [requests] at has
    by_cases same : other = task
    · subst same
      rw [silent has]
      exact kept.none_ other has
    · rw [others other same]
      exact kept.none_ other has
  · rw [requests] at has
    by_cases same : other = task
    · subst same
      obtain ⟨finding, answer, answers, gets⟩ := answered asked has
      refine ⟨finding, answer, ?_, gets⟩
      rw [answers, kept.waiting other asked has missing foreign]
      rfl
    · rw [started] at member
      have earlier := (List.mem_append.mp member).resolve_right
        (fun last => same (List.mem_singleton.mp last))
      rw [others other same]
      exact kept.started other asked has earlier
  · rw [requests] at has
    rw [returned] at member
    rw [others call.task (foreign call member own)]
    exact kept.dropped call member own asked has
  · rw [requests] at has
    rw [started] at absent
    rw [returned] at free
    have apart : other ≠ task := by
      rintro rfl
      exact absent (List.mem_append_right _ (List.mem_singleton_self _))
    rw [others other apart]
    exact kept.waiting other asked has (fun member => absent (List.mem_append_left _ member)) free

theorem go_to_plain {move : EventLoop.Move τ} {request : Option Request} {creation : Creation π ι}
    (own : move ≠ .worker .addTask) (foreign : ∀ t, move ≠ .producer t .callTask) :
    s.goTo p move request creation loop =
      match loop.started.drop s.loop.started.length with
      | [] => some { s with loop }
      | task :: _ =>
          match s.requests task with
          | none => some { s with loop }
          | some request => Factory.execute { s with loop } p task request creation := by
  unfold Factory.goTo
  split
  · rename_i t
    exact absurd rfl (foreign t)
  · exact absurd rfl own
  · rfl

theorem go_to_quiet {move : EventLoop.Move τ} {request : Option Request} {creation : Creation π ι}
    (own : move ≠ .worker .addTask) (foreign : ∀ t, move ≠ .producer t .callTask)
    (started : loop.started = s.loop.started)
    (ran : s.goTo p move request creation loop = some after) : after = { s with loop } := by
  have begins : loop.started.drop s.loop.started.length = [] := by
    rw [started, List.drop_length]
  rw [go_to_plain own foreign, begins] at ran
  exact (Option.some.inj ran).symm

theorem go_to_started {task : TaskId} {request : Option Request} {creation : Creation π ι}
    (started : loop.started = s.loop.started ++ [task]) (status : loop.status = s.loop.status)
    (ran : s.goTo p (.worker .advance) request creation loop = some after) :
    (s.requests task = none ∧ after = { s with loop }) ∨
      ∃ request, s.requests task = some request ∧ ∃ finding answer life,
        after = ({ s with loop, life }).answer task finding answer ∧
          request.Gets finding answer ∧
          (life = s.life ∨ ∃ op, creation.op p s.runs = some op ∧ life = op.run s.life) := by
  have begins : loop.started.drop s.loop.started.length = [task] := by
    rw [started, List.drop_left]
  rw [go_to_plain (by simp) (by simp), begins] at ran
  dsimp only at ran
  cases asked : s.requests task with
  | none =>
      rw [asked] at ran
      exact .inl ⟨rfl, (Option.some.inj ran).symm⟩
  | some request =>
      rw [asked] at ran
      obtain ⟨finding, answer, life, same, gets, made⟩ := execute_answers ran
      have runs : Factory.runs { s with loop } = s.runs := by
        simp only [Factory.runs, status]
      rw [runs] at made
      exact .inr ⟨request, rfl, finding, answer, life, same, gets, made⟩

theorem go_to_kept {move : EventLoop.Move τ} {request : Option Request} {creation : Creation π ι}
    (kept : Kept s) (before : Accounted s.loop) (accounted : Accounted loop)
    (change : Change s.loop loop move) (ran : s.goTo p move request creation loop = some after) :
    Kept after := by
  cases change with
  | asks started next returned =>
      cases ran
      exact request_kept kept before started next rfl (fun _ _ => rfl)
        (.inl ⟨returned, new_answers kept⟩)
  | drops started next returned =>
      cases ran
      refine request_kept kept before started next rfl (fun task apart => ?_) (.inr ⟨returned, ?_⟩)
      · refine (answers_append _ task).trans ?_
        cases request with
        | none => simp
        | some request => simp [apart.symm]
      · refine (answers_append _ _).trans ?_
        rw [new_answers kept]
        cases request with
        | none => rfl
        | some request => simp
  | starts task own started next returned status =>
      subst own
      rcases go_to_started started status ran with ⟨unasked, rfl⟩ | ⟨request, asked, finding,
        answer, life, rfl, gets, _⟩
      · refine start_kept kept accounted started next returned rfl (fun _ _ => rfl)
          (fun _ => rfl) (fun request asked => ?_)
        cases unasked.symm.trans asked
      · refine start_kept kept accounted started next returned rfl
          (fun other apart => answers_elsewhere finding answer apart) (fun unasked => ?_)
          (fun other has => ?_)
        · cases asked.symm.trans unasked
        · cases asked.symm.trans has
          exact ⟨finding, answer, answers_here task finding answer, gets⟩
  | keeps own foreign started next calls returned others =>
      rw [go_to_quiet own foreign started ran]
      exact quiet_kept kept started next returned others

theorem go_to_life {move : EventLoop.Move τ} {request : Option Request} {creation : Creation π ι}
    (change : Change s.loop loop move) (ran : s.goTo p move request creation loop = some after) :
    after.loop = loop ∧ (after.life = s.life ∨
      ∃ op, creation.op p s.runs = some op ∧ after.life = op.run s.life) := by
  cases change with
  | asks started next returned | drops started next returned =>
      cases ran
      exact ⟨rfl, .inl rfl⟩
  | starts task own started next returned status =>
      subst own
      rcases go_to_started started status ran with ⟨_, rfl⟩ | ⟨_, _, _, _, life, rfl, _, made⟩
      · exact ⟨rfl, .inl rfl⟩
      · exact ⟨rfl, made⟩
  | keeps own foreign started next calls returned others =>
      rw [go_to_quiet own foreign started ran]
      exact ⟨rfl, .inl rfl⟩

variable [DecidableEq τ] {capacity : Nat}

theorem reachable_parts (reached : Reachable (factorySystem τ π ι capacity p) s) :
    Reachable (loopSystem τ capacity) s.loop ∧ Reachable (lifeSystem π ι) s.life ∧ Kept s := by
  induction reached with
  | start begins =>
      obtain ⟨loop, life, requests, answers⟩ := begins
      refine ⟨.start loop, .start life, ?_, ?_, ?_, ?_, ?_⟩
      · intro task request has
        rw [requests] at has
        cases has
      · intro task _
        rw [Factory.answersOf, answers]
        rfl
      · intro task request has
        rw [requests] at has
        cases has
      · intro call member
        rw [loop] at member
        cases member
      · intro task request has
        rw [requests] at has
        cases has
  | @next before after move _ _ moves ih =>
      obtain ⟨loops, lives, kept⟩ := ih
      obtain ⟨legal, moved⟩ := moves
      cases move with
      | life op =>
          cases moved
          exact ⟨loops, reachable_next lives ⟨legal, rfl⟩, kept.known, kept.none_, kept.started,
            kept.dropped, kept.waiting⟩
      | loop move request creation =>
          cases later : move.run capacity before.loop with
          | none =>
              rw [run, later] at moved
              cases moved
          | some loop =>
              rw [run, later] at moved
              have next : Reachable (loopSystem τ capacity) loop := reachable_next loops later
              have change := move_changes later
              obtain ⟨same, made⟩ := go_to_life change moved
              refine ⟨same ▸ next, ?_, ?_⟩
              · rcases made with kept | ⟨op, called, made⟩
                · rw [kept]
                  exact lives
                · rw [made]
                  exact reachable_next lives ⟨legal op called, rfl⟩
              · exact go_to_kept kept (reachable_accounted loops) (reachable_accounted next) change
                  moved

/-- In every run the request of another thread is waiting in the task list and unanswered, or
it has run and has got one answer, as `Request.Gets` says: a request that catches is told
of the instance or of the failure; one with an address is told of the failure, or its
callback is kept for the connection and nobody has been told yet, or a constructor has
thrown and nobody ever will be. A request that the worker makes of itself gets the end of
its task for an answer at once. -/
theorem requests_answered_once (reached : Reachable (factorySystem τ π ι capacity p) s)
    {call : Returned} (made : call ∈ s.loop.returned) {request : Request}
    (asked : s.requests call.task = some request) :
    (call.byWorker = true → s.answersOf call.task = [(.unrun, request.dropped)]) ∧
      (call.byWorker = false →
        (call.task ∈ s.loop.taskList ∧ s.answersOf call.task = []) ∨
        (call.task ∈ s.loop.started ∧ ∃ finding answer,
          s.answersOf call.task = [(finding, answer)] ∧ request.Gets finding answer)) := by
  obtain ⟨loops, _, kept⟩ := reachable_parts reached
  have accounted := reachable_accounted loops
  refine ⟨fun own => kept.dropped call made own request asked, fun foreign => ?_⟩
  have handles := accounted.foreign call made foreign
  rcases List.mem_append.mp handles with started | waits
  · exact .inr ⟨started, kept.started call.task request asked started⟩
  · have missing : call.task ∉ s.loop.started := fun started =>
      (List.nodup_append.mp accounted.once).2.2 _ started _ waits rfl
    refine .inl ⟨waits,
      kept.waiting call.task request asked missing (fun other member own same => ?_)⟩
    exact (accounted.dropped other member own).2.1 (same ▸ handles)

end Keeping

section Samples

def exhausted (step : EventLoop.Move Bool × Option Request) : Move Bool Unit Bool :=
  .loop step.1 step.2 (.throws "std::bad_alloc")

def idleFactory : Factory Bool Unit Bool := ⟨.start, idleLife, fun _ => none, []⟩

def runAll (steps : List (EventLoop.Move Bool × Option Request)) :
    Option (Factory Bool Unit Bool) :=
  steps.foldlM (fun s step => run 65536 () s (exhausted step)) idleFactory

theorem exhausted_reachable {steps : List (EventLoop.Move Bool × Option Request)}
    {s after : Factory Bool Unit Bool}
    (reached : Reachable (factorySystem Bool Unit Bool 65536 ()) s)
    (ran : steps.foldlM (fun s step => run 65536 () s (exhausted step)) s = some after) :
    Reachable (factorySystem Bool Unit Bool 65536 ()) after := by
  induction steps generalizing s with
  | nil =>
      cases ran
      exact reached
  | cons step steps ih =>
      rw [List.foldlM_cons] at ran
      cases moved : run 65536 () s (exhausted step) with
      | none =>
          rw [moved] at ran
          cases ran
      | some next =>
          rw [moved] at ran
          have legal : Legal () s (exhausted step) := fun op called => by cases called
          exact ih (reachable_next reached ⟨legal, moved⟩) ran

/-- A thread calls `create_io_async` with an address, and the loop runs its task. -/
def oneRequest : List (EventLoop.Move Bool × Option Request) :=
  (.producer true .callTask, some .asyncAddress) ::
    ([.producer true .advance, .producer true .advance, .producer true .advance, .worker .advance,
      .worker .advance, .worker .advance].map (·, none))

theorem one_request_run : (runAll oneRequest).isSome = true := by decide

theorem one_request_reachable :
    Reachable (factorySystem Bool Unit Bool 65536 ()) ((runAll oneRequest).get one_request_run) :=
  exhausted_reachable (.start ⟨rfl, ⟨fun _ => rfl, fun _ => ⟨rfl, rfl⟩, rfl, fun _ _ => rfl⟩,
    rfl, rfl⟩) (Option.some_get one_request_run).symm

theorem requests_answered_once_async : ∃ finding answer,
    ((runAll oneRequest).get one_request_run).answersOf 0 = [(finding, answer)] ∧
      Request.asyncAddress.Gets finding answer := by
  have made : (⟨0, false⟩ : Returned) ∈
      ((runAll oneRequest).get one_request_run).loop.returned := by decide
  have asked : ((runAll oneRequest).get one_request_run).requests 0 = some .asyncAddress := rfl
  rcases (requests_answered_once one_request_reachable made asked).2 rfl with ⟨waits, _⟩ | ⟨_, told⟩
  · exact absurd waits (by decide)
  · exact told

end Samples

end Npoller.IoFactory
