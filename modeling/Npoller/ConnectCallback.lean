import Npoller.TcpChanges

/-!
A tcp that `io_factory::create_io_with_callback` creates with an address, and the
calls of its connect callback. One moment of the task that creates it is the start:
`create_io_in_eventloop` has returned, the callback is set and `connect` is called;
or the creation has failed and the callback was called with `nullptr`. Other threads
may close the instance at any time.
-/

namespace Npoller.ConnectCallback

open IoBuffer IoWrite MemContainer StepSystem TcpChanges TcpLoop TcpSetters
open TcpRace (ConnectResult)

/-- `inConnect` is set while the `connect` of the creating task runs, and `returned` is
the status it has left. `invoked` has an entry for each call of the callback, true for
a call with the instance; `established` records that the status has been connected. -/
structure Connection (θ : Type*) where
  tcp : Tcp θ
  inConnect : Bool
  returned : Option TcpStatus
  invoked : List Bool
  established : Bool

/-- What a step on the loop thread or on another one may be. The parts of another
thread's `close` are taken in any order; its callbacks may leave any operations. -/
inductive Move (θ : Type*) where
  | tcp (move : TcpLoop.Move θ)
  | otherCleans (tempReadEvent : Option TcpLoop.Op) (readList writeList : List TcpLoop.Op)
  | otherCloses

/-- How `connect` (`first`) or `reconnect` calls `handle_connect_result`: `connect_success`,
`connect_fail`, or not at all. -/
def success (first : Bool) : ConnectResult → Option Bool
  | .succeeded | .isConnected => some true
  | .refused => some false
  | .interrupted => if first then none else some false
  | .unknown => if first then some false else none
  | .inProgress => none

variable {θ : Type*}

def invocation (s : Tcp θ) : TcpLoop.Move θ → Option Bool
  | .loop (.connected result) =>
      if s.connectHandler then
        match s.todo with
        | .connect :: _ => if s.status = .initializing then success true result else none
        | .reconnect :: _ => if s.status = .connecting then success false result else none
        | _ => none
      else none
  | _ => none

def Connection.goTo (s : Connection θ) (called : Option Bool) (tcp : Tcp θ) : Connection θ :=
  { tcp
    inConnect := s.inConnect && !tcp.todo.isEmpty
    returned := if s.inConnect && tcp.todo.isEmpty then some tcp.status else s.returned
    invoked := s.invoked ++ called.toList
    established := s.established || decide (tcp.status = .connected) }

def created (fd : Int) (managed : Bool) (mem : Mem) : Connection θ :=
  { tcp := { Tcp.construct fd .initializing true mem with managed, todo := [.connect] }
    inConnect := true
    returned := none
    invoked := []
    established := false }

/-- `mark_invalid` has been called on the instance, if there is one. -/
def notCreated (fd : Int) (mem : Mem) : Connection θ :=
  { tcp := { Tcp.construct fd .invalid false mem with managed := false }
    inConnect := false
    returned := none
    invoked := [false]
    established := false }

section Runs
variable [DecidableEq θ]

def run (s : Connection θ) : Move θ → Option (Connection θ)
  | .tcp move => (move.run s.tcp).map (s.goTo (invocation s.tcp move))
  | .otherCleans tempReadEvent readList writeList =>
      some (s.goTo none { s.tcp with managed := false, tempReadEvent, readList, writeList })
  | .otherCloses =>
      some (s.goTo none
        { s.tcp with status := if Final s.tcp.status then s.tcp.status else .closed })

def connectSystem (θ : Type*) [DecidableEq θ] : System (Connection θ) (Move θ) where
  init s := ∃ fd mem, (∃ managed, s = created fd managed mem) ∨ s = notCreated fd mem
  step before move after := run before move = some after

end Runs

/-- No four EINTR in `connect`, no `getsockopt` that fails in `reconnect`, and no `close`
before the callback has been called. -/
def Meets (s : Connection θ) : Move θ → Prop
  | .tcp (.loop (.connected result)) =>
      (s.tcp.todo.head? = some .connect → result ≠ .interrupted) ∧
        (s.tcp.todo.head? = some .reconnect → result ≠ .unknown)
  | .tcp (.call .close) | .otherCloses => s.invoked ≠ []
  | .tcp _ | .otherCleans _ _ _ => True

instance (s : Connection θ) : (move : Move θ) → Decidable (Meets s move)
  | .tcp (.loop (.connected _)) => inferInstanceAs (Decidable ((_ → _) ∧ (_ → _)))
  | .tcp (.call .close) | .otherCloses => inferInstanceAs (Decidable (_ ≠ _))
  | .tcp (.call (.event _)) | .tcp (.call .instantWrite) | .tcp (.call .connect)
  | .tcp (.loop (.processed _)) | .tcp (.loop (.flushed _)) | .tcp (.loop (.read _))
  | .tcp (.loop (.wrote _)) | .tcp (.loop .closes) | .tcp (.loop .returns)
  | .tcp (.register _ _ _ _) | .tcp (.advance _) | .otherCleans _ _ _ =>
      inferInstanceAs (Decidable True)

/-- No write may be announced: as long as the instance is not writable each
registration fails its test. -/
structure Quiet (tcp : Tcp θ) : Prop where
  ready : tcp.readyToWrite = 0
  threads : ∀ t, tcp.threads t = .idle ∨ ∃ op, tcp.threads t = .checking op

def Waits : List Instr → Prop
  | [] | [.dispatch _] | [.reconnect, .afterReconnect _] | [.afterReconnect _] | [.getEvent]
  | [.connect] => True
  | _ => False

structure Undecided (s : Connection θ) : Prop where
  none_ : s.invoked = []
  handler : s.tcp.connectHandler = true
  fresh : s.established = false
  quiet : Quiet s.tcp
  stage : s.tcp.status = .initializing ∧ s.inConnect = true ∧ s.tcp.todo = [.connect] ∨
    s.tcp.status = .connecting ∧ s.inConnect = false ∧ Waits s.tcp.todo

/-- The callback has been called with `nullptr`, and the close that follows is not done. -/
structure Failing (s : Connection θ) : Prop where
  once : s.invoked = [false]
  fresh : s.established = false
  status : s.tcp.status = .initializing ∨ s.tcp.status = .connecting
  closes : ∃ below, Closes s.tcp.todo below ∧ (s.inConnect = true → below = [])

structure Decided (s : Connection θ) : Prop where
  settled : Settled s.tcp.status
  once : s.invoked = [s.established]
  failed : s.established = false → Final s.tcp.status
  inside : s.inConnect = true → (∀ instr ∈ s.tcp.todo, Instr.Closing instr) ∧
    (s.tcp.status = .connected ∨ s.tcp.status = .closed)

inductive Stage (s : Connection θ) : Prop where
  | undecided (undecided : Undecided s)
  | failing (failing : Failing s)
  | decided (decided : Decided s)

structure Kept (s : Connection θ) : Prop where
  stage : Stage s
  returned : ∀ status, s.returned = some status →
    status = .connecting ∨ status = .connected ∨ status = .closed
  busy : s.inConnect = true → s.tcp.todo ≠ []

variable {s after : Connection θ} {tcp : Tcp θ} {called : Option Bool}

theorem settled_silent {move : TcpLoop.Move θ} (settled : Settled s.tcp.status) :
    invocation s.tcp move = none := by
  unfold invocation
  split
  · split
    · split
      · exact if_neg settled.1
      · exact if_neg settled.2
      · rfl
    · rfl
  · rfl

theorem other_silent {instr : Instr} {rest : List Instr} {move : TcpLoop.Move θ}
    (at_ : s.tcp.todo = instr :: rest) (first : instr ≠ .connect) (again : instr ≠ .reconnect) :
    invocation s.tcp move = none := by
  unfold invocation
  split
  · split
    · split
      · rename_i here
        rw [at_] at here
        cases here
        exact absurd rfl first
      · rename_i here
        rw [at_] at here
        cases here
        exact absurd rfl again
      · rfl
    · rfl
  · rfl

theorem decided_stays (decided : Decided s) (settled : Settled tcp.status)
    (final : Final s.tcp.status → Final tcp.status)
    (inside : s.inConnect = true → (∀ instr ∈ tcp.todo, Instr.Closing instr) ∧
      (tcp.status = .connected ∨ tcp.status = .closed)) : Decided (s.goTo none tcp) := by
  have same : (s.goTo none tcp).established = s.established := by
    cases known : s.established with
    | true => simp [Connection.goTo, known]
    | false =>
        have shut : tcp.status ≠ .connected := by
          intro open_
          rcases final (decided.failed known) with other | other
          · rw [open_] at other
            cases other
          · rw [open_] at other
            cases other
        simp [Connection.goTo, known, shut]
  refine ⟨settled, ?_, ?_, ?_⟩
  · rw [same]
    exact (List.append_nil _).trans decided.once
  · rw [same]
    exact fun fails => final (decided.failed fails)
  · intro during
    exact inside (Bool.and_eq_true_iff.mp during).1

theorem go_to_kept (kept : Kept s) (stage : Stage (s.goTo called tcp))
    (returns : s.inConnect = true → tcp.todo = [] →
      tcp.status = .connecting ∨ tcp.status = .connected ∨ tcp.status = .closed) :
    Kept (s.goTo called tcp) := by
  refine ⟨stage, ?_, ?_⟩
  · intro status now
    simp only [Connection.goTo] at now
    split at now
    · rename_i ends
      cases now
      obtain ⟨during, idle⟩ := Bool.and_eq_true_iff.mp ends
      exact returns during (List.isEmpty_iff.mp idle)
    · exact kept.returned status now
  · intro during idle
    change tcp.todo = [] at idle
    simp only [Connection.goTo, idle] at during
    simp at during

section Loop
variable {rest : List Instr} {instr : Instr} {input : Input}

theorem first_connect (undecided : Undecided s) (status : s.tcp.status = .initializing)
    (at_ : s.tcp.todo = [.connect])
    (meets : Meets s (.tcp (.loop input))) (moved : s.tcp.run [] .connect input = some tcp) :
    Stage (s.goTo (invocation s.tcp (.loop input)) tcp) ∧
      (tcp.todo = [] → tcp.status = .connecting) := by
  obtain ⟨none_, handler, fresh, quiet, _⟩ := undecided
  cases input with
  | connected result =>
      simp only [Tcp.run, status, if_true] at moved
      cases moved
      cases result with
      | succeeded | isConnected =>
          refine ⟨.decided ?_, ?_⟩
          · refine ⟨connected_settled, ?_, ?_, ?_⟩
            · simp [Connection.goTo, invocation, handler, at_, status, success, none_, fresh,
                Tcp.connectResult]
            · simp [Connection.goTo, Tcp.connectResult]
            · intro _
              refine ⟨?_, .inl rfl⟩
              simp [Connection.goTo, Tcp.connectResult, Tcp.handleConnectResult, handler,
                Instr.Closing]
          · simp [Tcp.connectResult, Tcp.handleConnectResult, handler]
      | inProgress =>
          refine ⟨.undecided ?_, fun _ => rfl⟩
          refine ⟨?_, handler, ?_, ⟨quiet.ready, quiet.threads⟩, .inr ⟨rfl, ?_, trivial⟩⟩
          · simp [Connection.goTo, invocation, handler, at_, status, success, none_]
          · simp [Connection.goTo, fresh, Tcp.connectResult]
          · simp [Connection.goTo, Tcp.connectResult]
      | interrupted =>
          have retried := meets.1
          rw [at_] at retried
          exact absurd rfl (retried rfl)
      | unknown | refused =>
          refine ⟨.failing ?_, ?_⟩
          · refine ⟨?_, ?_, .inl status, [], ⟨[.callback, .clearHandler, .close], ?_, ?_, ?_⟩,
              fun _ => rfl⟩
            · simp [Connection.goTo, invocation, handler, at_, status, success, none_]
            · simp [Connection.goTo, fresh, Tcp.connectResult, status]
            · simp [Connection.goTo, Tcp.connectResult, Tcp.handleConnectResult, handler]
            · simp [Instr.Closing]
            · simp
          · simp [Tcp.connectResult, Tcp.handleConnectResult, handler]
  | processed _ | flushed _ | read _ | wrote _ | closes | returns => cases moved

theorem waits_head (waits : Waits (instr :: rest)) :
    (instr = .reconnect ∧ ∃ events, rest = [.afterReconnect events]) ∨
      rest = [] ∧ (instr = .getEvent ∨ instr = .connect ∨
        ∃ events, instr = .dispatch events ∨ instr = .afterReconnect events) := by
  unfold Waits at waits
  split at waits
  · rename_i impossible
    cases impossible
  · rename_i shape
    cases shape
    exact .inr ⟨rfl, .inr (.inr ⟨_, .inl rfl⟩)⟩
  · rename_i shape
    cases shape
    exact .inl ⟨rfl, _, rfl⟩
  · rename_i shape
    cases shape
    exact .inr ⟨rfl, .inr (.inr ⟨_, .inr rfl⟩)⟩
  · rename_i shape
    cases shape
    exact .inr ⟨rfl, .inl rfl⟩
  · rename_i shape
    cases shape
    exact .inr ⟨rfl, .inr (.inl rfl)⟩
  · cases waits

theorem still_waiting (undecided : Undecided s) (outside : s.inConnect = false)
    (status : tcp.status = .connecting) (handler : tcp.connectHandler = true) (quiet : Quiet tcp)
    (waits : Waits tcp.todo) : Undecided (s.goTo none tcp) := by
  refine ⟨(List.append_nil _).trans undecided.none_, handler, ?_, quiet, .inr ⟨status, ?_, waits⟩⟩
  · simp [Connection.goTo, undecided.fresh, status]
  · simp [Connection.goTo, outside]

theorem reconnect_stage {events : Events} (undecided : Undecided s)
    (status : s.tcp.status = .connecting) (outside : s.inConnect = false)
    (at_ : s.tcp.todo = [.reconnect, .afterReconnect events])
    (meets : Meets s (.tcp (.loop input)))
    (moved : s.tcp.run [.afterReconnect events] .reconnect input = some tcp) :
    Stage (s.goTo (invocation s.tcp (.loop input)) tcp) := by
  obtain ⟨none_, handler, fresh, quiet, _⟩ := undecided
  cases input with
  | connected result =>
      simp only [Tcp.run, status, if_true] at moved
      cases moved
      cases result with
      | succeeded | isConnected =>
          refine .decided ⟨connected_settled, ?_, ?_, ?_⟩
          · simp [Connection.goTo, invocation, handler, at_, status, success, none_, fresh,
              Tcp.connectResult]
          · simp [Connection.goTo, Tcp.connectResult]
          · simp [Connection.goTo, outside]
      | inProgress =>
          refine .undecided ⟨?_, handler, ?_, ⟨quiet.ready, quiet.threads⟩, .inr ⟨rfl, ?_, trivial⟩⟩
          · simp [Connection.goTo, invocation, handler, at_, status, success, none_]
          · simp [Connection.goTo, fresh, Tcp.connectResult]
          · simp [Connection.goTo, outside]
      | unknown =>
          have failed := meets.2
          rw [at_] at failed
          exact absurd rfl (failed rfl)
      | interrupted | refused =>
          refine .failing ⟨?_, ?_, .inr status, [.afterReconnect events],
            ⟨[.callback, .clearHandler, .close], ?_, ?_, ?_⟩, ?_⟩
          · simp [Connection.goTo, invocation, handler, at_, status, success, none_]
          · simp [Connection.goTo, fresh, Tcp.connectResult, status]
          · simp [Connection.goTo, Tcp.connectResult, Tcp.handleConnectResult, handler]
          · simp [Instr.Closing]
          · simp
          · simp [Connection.goTo, outside]
  | processed _ | flushed _ | read _ | wrote _ | closes | returns => cases moved

theorem waiting_stage (undecided : Undecided s) (status : s.tcp.status = .connecting)
    (outside : s.inConnect = false) (waits : Waits s.tcp.todo) (at_ : s.tcp.todo = instr :: rest)
    (meets : Meets s (.tcp (.loop input))) (moved : s.tcp.run rest instr input = some tcp) :
    Stage (s.goTo (invocation s.tcp (.loop input)) tcp) := by
  have waiting {next : List Instr} (silent : invocation s.tcp (.loop input) = none)
      (now : { s.tcp with todo := next } = tcp) (waits : Waits next) :
      Stage (s.goTo (invocation s.tcp (.loop input)) tcp) := by
    subst now
    rw [silent]
    exact .undecided (still_waiting undecided outside status undecided.handler
      ⟨undecided.quiet.ready, undecided.quiet.threads⟩ waits)
  rw [at_] at waits
  rcases waits_head waits with ⟨rfl, events, rfl⟩ | ⟨rfl, rfl | rfl | ⟨events, rfl | rfl⟩⟩
  · exact reconnect_stage undecided status outside at_ meets moved
  · have now : { s.tcp with todo := [] } = tcp := by
      simpa [Tcp.run, status] using moved
    exact waiting (other_silent at_ (by rintro ⟨⟩) (by rintro ⟨⟩)) now trivial
  -- `connect` returns at once on an instance that is not initializing any more.
  · have silent : invocation s.tcp (.loop input) = none := by
      unfold invocation
      split
      · simp [at_, status]
      · rfl
    cases input with
    | connected result =>
        have now : { s.tcp with todo := [] } = tcp := by
          simpa [Tcp.run, status] using moved
        exact waiting silent now trivial
    | processed _ | flushed _ | read _ | wrote _ | closes | returns => cases moved
  · have now : { s.tcp with todo := [.reconnect, .afterReconnect events] } = tcp := by
      simpa [Tcp.run, status, dispatched] using moved
    exact waiting (other_silent at_ (by rintro ⟨⟩) (by rintro ⟨⟩)) now trivial
  · have now : { s.tcp with todo := [.getEvent] } = tcp := by
      simpa [Tcp.run, status, afterReconnect] using moved
    exact waiting (other_silent at_ (by rintro ⟨⟩) (by rintro ⟨⟩)) now trivial

/-- Each instruction of the failed callback leaves the close on the stack, until it is
done. -/
theorem failing_stage (failing : Failing s) (at_ : s.tcp.todo = instr :: rest)
    (moved : s.tcp.run rest instr input = some tcp) :
    Stage (s.goTo (invocation s.tcp (.loop input)) tcp) ∧
      (tcp.todo = [] → tcp.status = .closed) := by
  obtain ⟨once, fresh, status, below, closes, outer⟩ := failing
  -- The callback is due again only in `connect` and `reconnect`, and neither is left.
  obtain ⟨here, ⟨upper, todo, closing⟩, outcome⟩ := closes_step closes at_ moved
  have silent : invocation s.tcp (.loop input) = none := by
    apply other_silent at_
    · rintro rfl
      cases here
    · rintro rfl
      cases here
  have invoked : (s.goTo none tcp).invoked = [false] := (List.append_nil _).trans once
  rw [silent]
  rcases outcome with ⟨same, due⟩ | ⟨final, ended⟩
  · have open_ : tcp.status ≠ .connected := by
      rw [same]
      rcases status with now | now <;> rw [now] <;> nofun
    refine ⟨.failing ⟨invoked, ?_, ?_, below, due, ?_⟩, fun idle => absurd idle (closes_busy due).1⟩
    · simp [Connection.goTo, fresh, open_]
    · change tcp.status = _ ∨ tcp.status = _
      rw [same]
      exact status
    · exact fun during => outer (Bool.and_eq_true_iff.mp during).1
  · have shut : tcp.status = .closed := by
      rcases ended with same | shut
      · rw [same] at final
        rcases status with now | now
        · rw [now] at final
          rcases final with no | no <;> cases no
        · rw [now] at final
          rcases final with no | no <;> cases no
      · exact shut
    have same : (s.goTo none tcp).established = false := by
      simp [Connection.goTo, fresh, shut]
    refine ⟨.decided ⟨?_, ?_, ?_, ?_⟩, fun _ => shut⟩
    · change Settled tcp.status
      rw [shut]
      exact closed_settled
    · rw [invoked, same]
    · exact fun _ => final
    · intro during
      refine ⟨?_, .inr shut⟩
      change ∀ instr ∈ tcp.todo, _
      rw [todo, outer (Bool.and_eq_true_iff.mp during).1, List.append_nil]
      exact closing

theorem decided_stage (decided : Decided s) (at_ : s.tcp.todo = instr :: rest)
    (moved : s.tcp.run rest instr input = some tcp) :
    Decided (s.goTo (invocation s.tcp (.loop input)) tcp) ∧
      (s.inConnect = true → tcp.status = .connected ∨ tcp.status = .closed) := by
  have inside : s.inConnect = true → (∀ other ∈ tcp.todo, Instr.Closing other) ∧
      (tcp.status = .connected ∨ tcp.status = .closed) := by
    intro during
    obtain ⟨closing, status⟩ := decided.inside during
    rw [at_] at closing
    obtain ⟨here, others⟩ := List.forall_mem_cons.mp closing
    obtain ⟨⟨next, todo, pushed⟩, kept, _⟩ := closing_step here moved
    constructor
    · rw [todo]
      exact List.forall_mem_append.mpr ⟨pushed, others⟩
    · rcases kept with same | ⟨_, shut⟩
      · rwa [same]
      · exact .inr shut
  rw [settled_silent decided.settled]
  constructor
  · exact decided_stays decided (settled_step decided.settled moved)
      (fun final => final_step final moved) inside
  · exact fun during => (inside during).2

theorem loop_kept (kept : Kept s) (meets : Meets s (.tcp (.loop input)))
    (at_ : s.tcp.todo = instr :: rest) (moved : s.tcp.run rest instr input = some tcp) :
    Kept (s.goTo (invocation s.tcp (.loop input)) tcp) := by
  cases kept.stage with
  | undecided undecided =>
      rcases undecided.stage with ⟨status, _, first⟩ | ⟨status, outside, waits⟩
      · rw [first] at at_
        cases at_
        obtain ⟨stage, returns⟩ := first_connect undecided status first meets moved
        exact go_to_kept kept stage (fun _ idle => .inl (returns idle))
      · apply go_to_kept kept (waiting_stage undecided status outside waits at_ meets moved)
        intro during
        rw [outside] at during
        cases during
  | failing failing =>
      obtain ⟨stage, returns⟩ := failing_stage failing at_ moved
      exact go_to_kept kept stage (fun _ idle => .inr (.inr (returns idle)))
  | decided decided =>
      obtain ⟨stage, returns⟩ := decided_stage decided at_ moved
      exact go_to_kept kept (.decided stage) (fun during _ => .inr (returns during))

end Loop

theorem kept_frame (kept : Kept s) (status : tcp.status = s.tcp.status)
    (todo : tcp.todo = s.tcp.todo) (handler : tcp.connectHandler = s.tcp.connectHandler)
    (quiet : Quiet s.tcp → ¬Readable s.tcp.status → ¬Writable s.tcp.status → Quiet tcp) :
    Kept (s.goTo none tcp) := by
  have inConnect : (s.goTo none tcp).inConnect = s.inConnect := by
    cases during : s.inConnect with
    | false => simp [Connection.goTo, during]
    | true => simp [Connection.goTo, during, todo, kept.busy during]
  have same : (s.goTo none tcp).invoked = s.invoked := List.append_nil _
  have fresh (known : s.established = false) (away : s.tcp.status ≠ .connected) :
      (s.goTo none tcp).established = false := by
    simp [Connection.goTo, known, status, away]
  refine go_to_kept kept ?_ (fun during idle => absurd (todo.symm.trans idle) (kept.busy during))
  cases kept.stage with
  | undecided undecided =>
      have open_ : s.tcp.status = .initializing ∨ s.tcp.status = .connecting := by
        rcases undecided.stage with ⟨now, _⟩ | ⟨now, _⟩
        · exact .inl now
        · exact .inr now
      refine .undecided ⟨same.trans undecided.none_, handler.trans undecided.handler, ?_, ?_, ?_⟩
      · apply fresh undecided.fresh
        rcases open_ with now | now <;> rw [now] <;> nofun
      · apply quiet undecided.quiet
        · rcases open_ with now | now <;> rw [now] <;> decide
        · rcases open_ with now | now <;> rw [now] <;> decide
      · rw [inConnect]
        change tcp.status = _ ∧ _ ∧ tcp.todo = _ ∨ tcp.status = _ ∧ _ ∧ Waits tcp.todo
        rw [status, todo]
        exact undecided.stage
  | failing failing =>
      refine .failing ⟨same.trans failing.once, ?_, ?_, ?_⟩
      · apply fresh failing.fresh
        rcases failing.status with now | now <;> rw [now] <;> nofun
      · change tcp.status = _ ∨ tcp.status = _
        rw [status]
        exact failing.status
      · rw [inConnect]
        change ∃ below, Closes tcp.todo below ∧ _
        rw [todo]
        exact failing.closes
  | decided decided =>
      refine .decided (decided_stays decided ?_ ?_ ?_)
      · rw [status]
        exact decided.settled
      · rw [status]
        exact id
      · rw [status, todo]
        exact decided.inside

section Threads
variable [DecidableEq θ]

theorem set_thread_quiet {t : θ} {pc : RegisterPc} (quiet : Quiet tcp)
    (free : pc = .idle ∨ ∃ op, pc = .checking op) : Quiet (tcp.setThread t pc) := by
  refine ⟨quiet.ready, ?_⟩
  intro u
  by_cases same : u = t
  · subst same
    rw [set_thread_self]
    exact free
  · rw [set_thread_other _ _ same]
    exact quiet.threads u

theorem register_kept {t : θ} (kept : Kept s) (step : RegisterStep s.tcp t tcp)
    (quiet : Quiet s.tcp → ¬Readable s.tcp.status → ¬Writable s.tcp.status → Quiet tcp) :
    Kept (s.goTo none tcp) := by
  apply kept_frame kept _ _ _ quiet <;> cases step <;> rfl

theorem advance_quiet {t : θ} (quiet : Quiet s.tcp) (unread : ¬Readable s.tcp.status)
    (unwritten : ¬Writable s.tcp.status) (moved : TcpLoop.advance s.tcp t = some tcp) :
    Quiet tcp := by
  unfold TcpLoop.advance at moved
  rcases quiet.threads t with idle | ⟨op, checking⟩
  · rw [idle] at moved
    cases moved
  · rw [checking] at moved
    dsimp only at moved
    split at moved
    · rw [if_neg unread] at moved
      cases moved
      exact set_thread_quiet quiet (.inl rfl)
    · rw [if_neg unwritten] at moved
      cases moved
      exact set_thread_quiet quiet (.inl rfl)

theorem begin_quiet {t : θ} {type : OperationType} {ioId : Int} {size : Nat}
    (quiet : Quiet s.tcp) (moved : registerMove s.tcp t type ioId size = some tcp) : Quiet tcp := by
  unfold registerMove at moved
  split at moved
  · cases moved
    have later : Quiet { s.tcp with nextId := s.tcp.nextId + 1 } := ⟨quiet.ready, quiet.threads⟩
    exact set_thread_quiet later (.inr ⟨_, rfl⟩)
  · cases moved

omit [DecidableEq θ] in
theorem call_waits {made : Call} (quiet : Quiet s.tcp) (unshut : made = .close → False)
    (moved : callMove s.tcp made = some tcp) : Quiet tcp ∧ Waits tcp.todo := by
  cases made with
  | event events =>
      simp only [callMove] at moved
      split at moved
      · cases moved
        exact ⟨⟨quiet.ready, quiet.threads⟩, trivial⟩
      · cases moved
  | instantWrite =>
      simp only [callMove] at moved
      split at moved
      · rename_i guard
        exact absurd quiet.ready guard.2
      · cases moved
  | connect =>
      simp only [callMove] at moved
      split at moved
      · cases moved
        exact ⟨⟨quiet.ready, quiet.threads⟩, trivial⟩
      · cases moved
  | close => exact (unshut rfl).elim

omit [DecidableEq θ] in
theorem call_kept {made : Call} (kept : Kept s) (meets : made = .close → s.invoked ≠ [])
    (moved : callMove s.tcp made = some tcp) : Kept (s.goTo none tcp) := by
  have never {p : Prop} (during : s.inConnect = true) : p :=
    absurd (call_steps moved).1 (kept.busy during)
  have outside : s.inConnect = false := by
    cases during : s.inConnect with
    | false => rfl
    | true => exact never during
  apply go_to_kept kept _ never
  cases kept.stage with
  | undecided undecided =>
      rcases undecided.stage with ⟨_, during, _⟩ | ⟨connecting, _, _⟩
      · exact never during
      · obtain ⟨quiet, waits⟩ := call_waits undecided.quiet
          (fun closes => meets closes undecided.none_) moved
        obtain ⟨_, readyToWrite, next, _, rfl⟩ := call_steps moved
        exact .undecided (still_waiting undecided outside connecting undecided.handler quiet waits)
  | failing failing =>
      obtain ⟨below, closes, _⟩ := failing.closes
      exact absurd (call_steps moved).1 (closes_busy closes).1
  | decided decided =>
      obtain ⟨_, readyToWrite, next, _, rfl⟩ := call_steps moved
      exact .decided (decided_stays decided decided.settled id never)

omit [DecidableEq θ] in
theorem other_closes_kept (kept : Kept s) (called : s.invoked ≠ []) :
    Kept (s.goTo none
      { s.tcp with status := if Final s.tcp.status then s.tcp.status else .closed }) := by
  refine go_to_kept kept ?_ (fun during idle => absurd idle (kept.busy during))
  cases kept.stage with
  | undecided undecided => exact absurd undecided.none_ called
  | failing failing =>
      obtain ⟨once, fresh, status, below, closes, outer⟩ := failing
      have open_ : ¬Final s.tcp.status := by
        rcases status with now | now <;> rw [now] <;> decide
      rw [if_neg open_]
      refine .decided ⟨closed_settled, ?_, fun _ => .inl rfl, ?_⟩
      · simp [Connection.goTo, once, fresh]
      · intro during
        obtain ⟨upper, stack, closing, _⟩ := closes.stack
        refine ⟨?_, .inr rfl⟩
        change ∀ instr ∈ s.tcp.todo, _
        rw [stack, outer (Bool.and_eq_true_iff.mp during).1, List.append_nil]
        exact closing
  | decided decided =>
      refine .decided (decided_stays decided ?_ ?_ ?_)
      · dsimp only
        split
        · exact decided.settled
        · exact closed_settled
      · intro final
        dsimp only
        rw [if_pos final]
        exact final
      · intro during
        obtain ⟨closing, status⟩ := decided.inside during
        refine ⟨closing, ?_⟩
        dsimp only
        split
        · exact status
        · exact .inr rfl

theorem step_kept {move : Move θ} (kept : Kept s) (meets : Meets s move)
    (moved : run s move = some after) : Kept after := by
  cases move with
  | tcp move =>
      obtain ⟨tcp, stepped, rfl⟩ := Option.map_eq_some_iff.mp moved
      cases move with
      | loop input =>
          obtain ⟨_, _, at_, ran⟩ := loop_at stepped
          exact loop_kept kept meets at_ ran
      | call made =>
          have allowed : made = .close → s.invoked ≠ [] := by
            rintro rfl
            exact meets
          exact call_kept kept allowed stepped
      | register t type ioId size =>
          exact register_kept kept (register_steps stepped)
            (fun quiet _ _ => begin_quiet quiet stepped)
      | advance t =>
          exact register_kept kept (advance_steps stepped)
            (fun quiet unread unwritten => advance_quiet quiet unread unwritten stepped)
  | otherCleans tempReadEvent readList writeList =>
      cases moved
      exact kept_frame kept rfl rfl rfl (fun quiet _ _ => ⟨quiet.ready, quiet.threads⟩)
  | otherCloses =>
      cases moved
      exact other_closes_kept kept meets

omit [DecidableEq θ] in
theorem created_kept (fd : Int) (managed : Bool) (mem : Mem) :
    Kept (created fd managed mem : Connection θ) := by
  refine ⟨.undecided ⟨rfl, rfl, rfl, ⟨rfl, fun _ => .inl rfl⟩, .inl ⟨rfl, rfl, rfl⟩⟩, ?_, ?_⟩
  · nofun
  · nofun

omit [DecidableEq θ] in
theorem not_created_kept (fd : Int) (mem : Mem) : Kept (notCreated fd mem : Connection θ) := by
  refine ⟨.decided ⟨invalid_settled, rfl, fun _ => .inr rfl, nofun⟩, ?_, ?_⟩
  · nofun
  · nofun

/-- In every run without four EINTR in `connect`, a failing `getsockopt` in `reconnect`,
and a close before the callback: `connect` returns an instance that is connecting,
connected or closed, and once the connection is established or given up the callback
has been called exactly once, with the instance if and only if it was established. -/
theorem connect_callback_once (reached : ReachableBy (connectSystem θ) Meets s) :
    (∀ status, s.returned = some status →
      status = .connecting ∨ status = .connected ∨ status = .closed) ∧
    (Settled s.tcp.status → s.invoked = [s.established]) := by
  have kept : Kept s := by
    apply invariant _ _ reached
    · rintro state ⟨fd, mem, ⟨managed, rfl⟩ | rfl⟩
      · exact created_kept fd managed mem
      · exact not_created_kept fd mem
    · exact fun _ _ _ holds meets moves => step_kept holds meets moves
  refine ⟨kept.returned, ?_⟩
  intro settled
  cases kept.stage with
  | undecided undecided =>
      rcases undecided.stage with ⟨status, _⟩ | ⟨status, _⟩
      · exact absurd status settled.1
      · exact absurd status settled.2
  | failing failing =>
      rcases failing.status with status | status
      · exact absurd status settled.1
      · exact absurd status settled.2
  | decided decided => exact decided.once

/-- The run of moves that all satisfy `allowed`, from the start of `connect`. -/
def afterMoves (allowed : Connection θ → Move θ → Prop) [∀ s move, Decidable (allowed s move)]
    (mem : Mem) (moves : List (Move θ)) : Option (Connection θ) :=
  moves.foldlM (fun s move => if allowed s move then run s move else none) (created 3 true mem)

theorem moves_reachable {allowed : Connection θ → Move θ → Prop}
    [∀ s move, Decidable (allowed s move)] {mem : Mem} {moves : List (Move θ)}
    (ran : (afterMoves allowed mem moves).isSome) :
    ReachableBy (connectSystem θ) allowed ((afterMoves allowed mem moves).get ran) := by
  have begins : (connectSystem θ).init (created 3 true mem) := ⟨3, mem, .inl ⟨true, rfl⟩⟩
  exact guarded_reachable (fun _ _ _ moved => moved) (.start begins) (Option.some_get ran).symm

end Threads

def emptyMem : Mem := .initial (fun _ _ => 0) 256

def lookedAgain (result : ConnectResult) : List (Move Unit) :=
  [.tcp (.loop (.connected .inProgress)), .tcp (.call (.event ⟨false, true, false⟩)),
    .tcp (.loop .returns), .tcp (.loop (.connected result))]

def refusedConnection : Connection Unit :=
  (afterMoves Meets emptyMem (lookedAgain .refused ++
    [.tcp (.loop .closes), .tcp (.loop .returns), .tcp (.loop (.processed true)),
      .tcp (.loop (.processed true)), .tcp (.loop .returns), .tcp (.loop .returns),
      .tcp (.loop .returns)])).get (by decide +kernel)

theorem connect_callback_once_refused :
    refusedConnection.returned = some .connecting ∧ refusedConnection.invoked = [false] ∧
      refusedConnection.established = false := by
  have once := connect_callback_once (s := refusedConnection) (moves_reachable (by decide +kernel))
  exact ⟨by decide +kernel, once.2 ⟨by decide +kernel, by decide +kernel⟩, by decide +kernel⟩

/-- `getsockopt` fails, and the instance is closed with no word to the callback. -/
def neverTold : Connection Unit :=
  (afterMoves (fun _ _ => True) emptyMem (lookedAgain .unknown)).get (by decide +kernel)

def neverBegun : Connection Unit :=
  (afterMoves (fun _ _ => True) emptyMem [.tcp (.loop (.connected .interrupted))]).get
    (by decide +kernel)

theorem closed_without_callback :
    (Reachable (connectSystem Unit) neverTold ∧ neverTold.tcp.status = .closed ∧
      neverTold.invoked = []) ∧
    Reachable (connectSystem Unit) neverBegun ∧ neverBegun.returned = some .initializing :=
  ⟨⟨moves_reachable (by decide +kernel), by decide +kernel, by decide +kernel⟩,
    moves_reachable (by decide +kernel), by decide +kernel⟩

end Npoller.ConnectCallback
