import Npoller.PlainEvents

/-!
`tcp_acceptor` on its event loop: `direct_read` with `accept`, and the rest of
`io::process_event` over the flags and the mask of the base class. The kernel keeps the
connections that nobody has accepted yet in the order in which they came. After a
callback `direct_read` looks at the instance that it has handed over by reference, so a
callback that moves it out leaves a null pointer to be dereferenced.
-/

namespace Npoller.AcceptLoop

open DirectIo PlainEvents StepSystem

/-- `errno` after `accept`; `aborted` is ECONNABORTED. -/
inductive AcceptErrno where
  | ebadf
  | einval
  | eintr
  | eagain
  | aborted
  | other
  deriving DecidableEq, Repr

/-- `moved` is whether the callback moves the pointer out of its argument. -/
inductive AcceptResult where
  | accepted (moved : Bool)
  | failed (errno : AcceptErrno)
  deriving DecidableEq, Repr

/-- A call of the callback; the null pointer comes with the error, and after
ECONNABORTED the kernel has given a connection up. -/
inductive Call (κ : Type*) where
  | handed (client : κ)
  | failed (client : Option κ)
  deriving DecidableEq, Repr

def Call.connections {κ : Type*} : Call κ → List κ
  | .handed client => [client]
  | .failed client => client.toList

structure Acceptor (κ ω θ : Type*) where
  io : PlainIo ω θ
  backlog : List κ
  arrived : List κ
  calls : List (Call κ)
  dangling : Bool

variable {κ ω θ : Type*}

/-- The retries of the `do` loop. -/
def maxRetries : Nat := 3

/-- `tcp_acceptor::direct_read`; a loop that outlives the results gets EAGAIN. After
EBADF the `close` finds the io invalid. -/
def Acceptor.directRead (s : Acceptor κ ω θ) : List AcceptResult → Nat → Option (Acceptor κ ω θ)
  | [], _ => some s
  | .accepted moved :: _, _ =>
      match s.backlog with
      | [] => none
      | client :: rest => some { s with
          backlog := rest, calls := s.calls ++ [.handed client], dangling := moved }
  | .failed .ebadf :: _, _ => some { s with io := s.io.markInvalid }
  | .failed .einval :: _, _ => some { s with io := { s.io with valid := false } }
  | .failed .eintr :: results, retryTimes =>
      if retryTimes < maxRetries then s.directRead results (retryTimes + 1) else some s
  | .failed .eagain :: _, _ => some s
  | .failed .aborted :: _, _ =>
      match s.backlog with
      | [] => none
      | client :: rest => some { s with
          backlog := rest, calls := s.calls ++ [.failed (some client)] }
  | .failed .other :: _, _ => some { s with calls := s.calls ++ [.failed none] }

def reads : Pc → Bool
  | .readStage events => events.epollin
  | _ => false

/-- `{1, 0}` without EPOLLRDHUP. -/
def acceptorFlags : Flags := ⟨true, false, false, false⟩

def acceptorMask : Mask := ⟨true, false, false, false⟩

inductive AcceptorMove (κ ω θ : Type*) where
  | arrive (client : κ)
  | accepts (results : List AcceptResult)
  | io (move : Move ω θ)

section Moves
variable [DecidableEq θ]

def Acceptor.runIo (s : Acceptor κ ω θ) : Move ω θ → Option (Acceptor κ ω θ)
  | .loop input =>
      if reads s.io.pc then none else (s.io.loop s.io.pc input).map ({ s with io := · })
  | move => (PlainEvents.run s.io move).map ({ s with io := · })

def Acceptor.accepts (s : Acceptor κ ω θ) (results : List AcceptResult) :
    Pc → Option (Acceptor κ ω θ)
  | .readStage events =>
      if events.epollin then
        (Acceptor.directRead { s with io := { s.io with pc := .rdhupStage events } } results 0)
      else none
  | _ => none

/-- After a null pointer has been dereferenced nothing is defined. -/
def run (s : Acceptor κ ω θ) (move : AcceptorMove κ ω θ) : Option (Acceptor κ ω θ) :=
  if s.dangling then none
  else
    match move with
    | .arrive client => some { s with
        backlog := s.backlog ++ [client], arrived := s.arrived ++ [client] }
    | .accepts results => s.accepts results s.io.pc
    | .io move => s.runIo move

/-- `start_accept` has succeeded; connections may have come since `listen`. -/
def acceptorSystem (κ ω θ : Type*) [DecidableEq θ] :
    System (Acceptor κ ω θ) (AcceptorMove κ ω θ) where
  init s := ∃ early, s = ⟨.added acceptorFlags acceptorMask, early, early, [], false⟩
  step before move after := run before move = some after

end Moves

variable {s after : Acceptor κ ω θ} {input : Input}

/-- What is left of the flags after `mark_invalid`. -/
def deadFlags : Flags := ⟨false, false, false, false⟩

/-- The flags never change but by `mark_invalid`, and the mask never changes. -/
structure Listening (io : PlainIo ω θ) : Prop where
  mask : io.mask = acceptorMask
  flags : io.flags = acceptorFlags ∨ io.flags = deadFlags
  alive : io.valid = true → io.flags = acceptorFlags
  events : ∀ events, io.pc = .readStage events ∨ io.pc = .rdhupStage events →
    events.epollrdhup = false

structure Accounted (s : Acceptor κ ω θ) : Prop where
  listening : Listening s.io
  accounts : s.arrived = s.calls.flatMap Call.connections ++ s.backlog

section Listening
variable {io next : PlainIo ω θ}

theorem listening_frame (listening : Listening io) (mask : next.mask = io.mask)
    (flags : next.flags = io.flags) (valid : next.valid = true → io.valid = true)
    (events : ∀ events, next.pc = .readStage events ∨ next.pc = .rdhupStage events →
      events.epollrdhup = false) : Listening next := by
  refine ⟨mask.trans listening.mask, ?_, fun alive => ?_, events⟩
  · rw [flags]
    exact listening.flags
  · rw [flags]
    exact listening.alive (valid alive)

theorem mark_invalid_listening (listening : Listening io) : Listening io.markInvalid := by
  refine ⟨listening.mask, .inr ?_, nofun, listening.events⟩
  change { io.flags with readable := false, writable := false } = deadFlags
  rcases listening.flags with same | same <;> rw [same] <;> rfl

theorem not_writable (listening : Listening io) : io.flags.writable = false := by
  rcases listening.flags with same | same <;> rw [same] <;> rfl

theorem loop_listening (listening : Listening io) (silent : reads io.pc = false)
    (moved : io.loop io.pc input = some next) : Listening next := by
  cases loop_cases moved with
  | reads at_ reported readable =>
      rw [at_] at silent
      exact absurd (silent.symm.trans reported) Bool.false_ne_true
  | drops at_ reported =>
      have never := listening.events _ (.inr at_)
      exact absurd (never.symm.trans reported) Bool.false_ne_true
  | goes inside follows flushes empties =>
      refine listening_frame listening rfl rfl id (fun events at_ => ?_)
      rcases at_ with at_ | at_
      · exact absurd at_ (follows events).1
      · exact listening.events events (.inl ((follows events).2 at_))
  | flushes at_ listed | cleans at_ listed =>
      exact listening_frame listening rfl rfl id listening.events
  | writes at_ given writable wrote =>
      exact absurd ((not_writable listening).symm.trans writable) Bool.false_ne_true
  | modifies at_ asked =>
      refine ⟨?_, listening.flags, listening.alive, nofun⟩
      rcases listening.flags with same | same
      · rw [same] at asked
        exact (Option.some.inj asked).symm
      · rw [same] at asked
        exact nomatch asked
  | ends at_ same =>
      exact listening_frame listening rfl rfl id nofun

variable [DecidableEq θ]

theorem other_listening {move : Move ω θ} (listening : Listening io)
    (other : ∀ input, move ≠ .loop input) (moved : PlainEvents.run io move = some next) :
    Listening next := by
  cases move with
  | report events =>
      simp only [PlainEvents.run] at moved
      split at moved
      · rename_i reports
        cases moved
        refine listening_frame listening rfl rfl id (fun seen at_ => ?_)
        obtain rfl : events = seen := by
          rcases at_ with at_ | at_
          · exact Pc.readStage.inj at_
          · cases at_
        -- The mask never asks for EPOLLRDHUP.
        have asked := reports.2.2.2.2
        rw [listening.mask] at asked
        exact eq_false_of_ne_true (fun up => Bool.false_ne_true (asked up))
      · cases moved
  | instantWrite =>
      simp only [PlainEvents.run] at moved
      split at moved
      · cases moved
        refine listening_frame listening rfl rfl id (fun seen at_ => ?_)
        rcases at_ with at_ | at_ <;> cases at_
      · cases moved
  | loop input => exact absurd rfl (other input)
  | register t op =>
      rw [(register_aside moved).2]
      exact listening_frame listening rfl rfl id listening.events
  | advance t =>
      have aside := advance_aside moved
      refine listening_frame listening aside.mask aside.flags (fun valid => aside.valid ▸ valid) ?_
      rw [aside.pc]
      exact listening.events
  | close =>
      cases moved
      exact listening_frame listening rfl rfl (fun valid => absurd valid Bool.false_ne_true)
        listening.events
  | removeIo =>
      cases moved
      exact listening_frame listening rfl rfl id listening.events

end Listening

theorem accounted_call {call : Call κ} {backlog : List κ} {dangling : Bool}
    (accounted : Accounted s) (taken : s.backlog = call.connections ++ backlog) :
    Accounted { s with backlog, calls := s.calls ++ [call], dangling } := by
  refine ⟨accounted.listening, ?_⟩
  calc s.arrived = s.calls.flatMap Call.connections ++ s.backlog := accounted.accounts
    _ = (s.calls ++ [call]).flatMap Call.connections ++ backlog := by
        rw [taken, List.flatMap_append, List.flatMap_singleton, List.append_assoc]

theorem direct_read_accounted {results : List AcceptResult} {retryTimes : Nat}
    (accounted : Accounted s) (readable : s.directRead results retryTimes = some after) :
    Accounted after := by
  induction results generalizing retryTimes with
  | nil =>
      cases readable
      exact accounted
  | cons result results ih =>
      cases result with
      | accepted moved =>
          simp only [Acceptor.directRead] at readable
          split at readable
          · cases readable
          · rename_i client rest listed
            cases readable
            exact accounted_call accounted listed
      | failed errno =>
          cases errno with
          | ebadf =>
              cases readable
              exact ⟨mark_invalid_listening accounted.listening, accounted.accounts⟩
          | einval =>
              cases readable
              refine ⟨?_, accounted.accounts⟩
              have listening := accounted.listening
              exact listening_frame listening rfl rfl nofun listening.events
          | eintr =>
              simp only [Acceptor.directRead] at readable
              split at readable
              · exact ih readable
              · cases readable
                exact accounted
          | eagain =>
              cases readable
              exact accounted
          | aborted =>
              simp only [Acceptor.directRead] at readable
              split at readable
              · cases readable
              · rename_i client rest listed
                cases readable
                exact accounted_call accounted listed
          | other =>
              cases readable
              exact accounted_call accounted rfl

/-- Up to three interruptions and an `accept` that succeeds. -/
def acceptsAfter (retries : Nat) (moved : Bool) (results : List AcceptResult) :
    List AcceptResult :=
  List.replicate retries (.failed .eintr) ++ .accepted moved :: results

theorem direct_read_hands {client : κ} {rest : List κ} (moved : Bool)
    (results : List AcceptResult) (waits : s.backlog = client :: rest) {retries retryTimes : Nat}
    (few : retryTimes + retries ≤ maxRetries) :
    s.directRead (acceptsAfter retries moved results) retryTimes =
      some { s with backlog := rest, calls := s.calls ++ [.handed client], dangling := moved } := by
  induction retries generalizing retryTimes with
  | zero =>
      simp only [acceptsAfter, List.replicate_zero, List.nil_append, Acceptor.directRead]
      rw [waits]
  | succ retries ih =>
      have again : retryTimes < maxRetries := by omega
      simp only [acceptsAfter, List.replicate_succ, List.cons_append, Acceptor.directRead]
      rw [if_pos again]
      exact ih (by omega)

section Runs
variable [DecidableEq θ]

theorem run_io_accounted {move : Move ω θ} (accounted : Accounted s)
    (moved : s.runIo move = some after) : Accounted after := by
  have listening := accounted.listening
  by_cases loops : ∃ input, move = .loop input
  · obtain ⟨input, rfl⟩ := loops
    simp only [Acceptor.runIo] at moved
    split at moved
    · cases moved
    · rename_i silent
      obtain ⟨io, stepped, rfl⟩ := Option.map_eq_some_iff.mp moved
      exact ⟨loop_listening listening (eq_false_of_ne_true silent) stepped, accounted.accounts⟩
  · have other : ∀ input, move ≠ .loop input := fun input same => loops ⟨input, same⟩
    have moved_ : (PlainEvents.run s.io move).map ({ s with io := · }) = some after := by
      cases move with
      | loop input => exact absurd rfl (other input)
      | _ => exact moved
    obtain ⟨io, stepped, rfl⟩ := Option.map_eq_some_iff.mp moved_
    exact ⟨other_listening listening other stepped, accounted.accounts⟩

theorem run_accounted {move : AcceptorMove κ ω θ} (accounted : Accounted s)
    (moved : run s move = some after) : Accounted after := by
  unfold run at moved
  split at moved
  · cases moved
  · cases move with
    | arrive client =>
        cases moved
        refine ⟨accounted.listening, ?_⟩
        change s.arrived ++ [client] = _
        rw [accounted.accounts, List.append_assoc]
    | accepts results =>
        cases at_ : s.io.pc with
        | readStage events =>
            simp only [at_, Acceptor.accepts] at moved
            split at moved
            · have listening := accounted.listening
              have passed : Listening { s.io with pc := .rdhupStage events } := by
                refine listening_frame listening rfl rfl id (fun seen next => ?_)
                obtain rfl : events = seen := by
                  rcases next with next | next
                  · exact nomatch next
                  · exact Pc.rdhupStage.inj next
                exact listening.events events (.inl at_)
              have next : Accounted { s with io := { s.io with pc := .rdhupStage events } } :=
                ⟨passed, accounted.accounts⟩
              exact direct_read_accounted next moved
            · cases moved
        | _ =>
            simp only [at_, Acceptor.accepts] at moved
            cases moved
    | io move => exact run_io_accounted accounted moved

/-- The loop thread is about to call `direct_read`. -/
def AboutToRead (s : Acceptor κ ω θ) : Prop := s.dangling = false ∧ reads s.io.pc = true

theorem about_to_read (about : AboutToRead s) (results : List AcceptResult) :
    ∃ events, run s (.accepts results) =
      Acceptor.directRead { s with io := { s.io with pc := .rdhupStage events } } results 0 := by
  obtain ⟨defined, reading⟩ := about
  cases at_ : s.io.pc with
  | readStage events =>
      rw [at_] at reading
      refine ⟨events, ?_⟩
      simp only [run, defined, Bool.false_eq_true, if_false, at_, Acceptor.accepts]
      exact if_pos reading
  | _ =>
      rw [at_] at reading
      exact absurd reading Bool.false_ne_true

/-- In every run the connections come to the callback in the order in which they came
to the kernel, each of them once, and those that are missing there were given up by the
kernel, which the callback was told. While the acceptor is in the epoll set the kernel
reports a waiting connection, as the mask asks for EPOLLIN, level-triggered, and nothing
else. An event with EPOLLIN cannot pass `direct_read`, which hands the oldest connection
over if `accept` succeeds in one of four tries. A callback that moves the pointer out of
its argument leaves a null pointer, which is dereferenced next. -/
theorem connections_in_order (reached : Reachable (acceptorSystem κ ω θ) s) :
    s.arrived = s.calls.flatMap Call.connections ++ s.backlog ∧
    s.io.mask = ⟨true, false, false, false⟩ ∧
    (AboutToRead s → (∀ input, run s (.io (.loop input)) = none) ∧
      ∀ client rest, s.backlog = client :: rest → ∀ retries ≤ maxRetries, ∀ moved results,
        ∃ after, run s (.accepts (acceptsAfter retries moved results)) = some after ∧
          after.calls = s.calls ++ [.handed client] ∧ after.backlog = rest ∧
          (moved = true → ∀ move, run after move = none)) := by
  have accounted : Accounted s := by
    induction reached with
    | start begins =>
        obtain ⟨early, rfl⟩ := begins
        exact ⟨⟨rfl, .inl rfl, fun _ => rfl, nofun⟩, rfl⟩
    | next _ _ moves ih => exact run_accounted ih moves
  refine ⟨accounted.accounts, accounted.listening.mask, fun about => ⟨?_, ?_⟩⟩
  · intro input
    simp only [run, about.1, Bool.false_eq_true, if_false, Acceptor.runIo, about.2, if_true]
  · intro client rest waits retries few moved results
    obtain ⟨events, called⟩ := about_to_read about (acceptsAfter retries moved results)
    have hands := direct_read_hands (s := { s with io := { s.io with pc := .rdhupStage events } })
      moved results waits (show 0 + retries ≤ maxRetries by omega)
    refine ⟨_, called.trans hands, rfl, rfl, fun gone move => ?_⟩
    unfold run
    rw [if_pos gone]

end Runs

/-- Two connections, of which one came before `add_io`; `accept` is interrupted once, and
the second event is about to be read. -/
def twoEvents : List (AcceptorMove Nat Nat Bool) :=
  [.arrive 2, .io (.report ⟨true, false, false⟩), .accepts [.failed .eintr, .accepted false],
    .io (.loop .none), .io (.loop (.flushed 0)), .io (.loop .none), .io (.loop (.wrote 0 .drained)),
    .io (.loop .none), .io (.loop .none), .io (.loop .none),
    .io (.report ⟨true, false, false⟩)]

def startedAcceptor : Acceptor Nat Nat Bool :=
  ⟨.added acceptorFlags acceptorMask, [1], [1], [], false⟩

theorem two_events_run : (twoEvents.foldlM run startedAcceptor).isSome = true := by decide

def secondEvent : Acceptor Nat Nat Bool := (twoEvents.foldlM run startedAcceptor).get two_events_run

theorem connections_in_order_sample :
    secondEvent.arrived = secondEvent.calls.flatMap Call.connections ++ secondEvent.backlog ∧
    ∃ after, run secondEvent (.accepts (acceptsAfter 3 true [])) = some after ∧
      after.calls = secondEvent.calls ++ [.handed 2] ∧ ∀ move, run after move = none := by
  have reached : Reachable (acceptorSystem Nat Nat Bool) secondEvent :=
    fold_reachable (fun _ _ _ moved => ⟨trivial, moved⟩) (.start ⟨[1], rfl⟩)
      (Option.eq_some_of_isSome two_events_run)
  obtain ⟨order, _, reading⟩ := connections_in_order reached
  have waits : secondEvent.backlog = [2] := by decide
  obtain ⟨after, moves, handed, _, gone⟩ :=
    (reading ⟨by decide, by decide⟩).2 2 [] waits 3 (Nat.le_refl _) true []
  exact ⟨order, after, moves, handed, gone rfl⟩

end Npoller.AcceptLoop
