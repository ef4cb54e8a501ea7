import Mathlib.Logic.Function.Basic
import Npoller.StepSystem
import Npoller.TcpSetters

/-!
The atomic steps on `__status` of one tcp instance and on its descriptor: `close`,
the setters, `reconnect` and `connect` with the stores that follow their system
call, `mark_invalid`, and the destructor `~io`. Any number of threads make any
calls one after the other, as `process_event`, `direct_read` and `direct_write` do;
what these look at to choose the next call is left open.
-/

namespace Npoller.TcpRace

open StepSystem TcpSetters

/-- What `connect(2)` and, in `reconnect`, `SO_ERROR` report. `unknown` is a
`getsockopt` that fails. -/
inductive ConnectResult where
  | succeeded
  | inProgress
  | isConnected
  | interrupted
  | unknown
  | refused
  deriving DecidableEq, Repr

/-- `connect` counts its retries. -/
inductive Caller where
  | reconnect
  | connect (retryTimes : Nat)
  deriving DecidableEq, Repr

/-- `exchanging` has loaded `current` and is before its exchange, `releasing` before
`::close(fd)`, `connecting` before `::connect`, `storing` before a plain store. -/
inductive ThreadPc where
  | idle
  | exchanging (setter : Setter) (current next : TcpStatus)
  | loading
  | closing (current : TcpStatus)
  | releasing
  | connecting (caller : Caller)
  | storing (status : TcpStatus)
  deriving DecidableEq, Repr

/-- `valid` is the flag of `io`, which no function of `tcp` writes. `ended` records
that the status has been final; `closes` counts the calls of `::close(fd)`. -/
structure Instance (θ : Type*) where
  status : TcpStatus
  valid : Bool
  threads : θ → ThreadPc
  destroyed : Bool
  closes : Nat
  ended : Bool

inductive Call where
  | set (setter : Setter)
  | close
  | reconnect
  | connect
  | markInvalid
  | shutdownWrite

/-- The first load of a call, which may be all of it. `shutdownWrite` is the end of
`direct_write`, which loads the status a last time before its store. -/
def Call.enter (status : TcpStatus) : Call → ThreadPc
  | .set setter => .exchanging setter status (setter.apply status)
  | .close => .loading
  | .reconnect => if status = .connecting then .connecting .reconnect else .idle
  | .connect => if status = .initializing then .connecting (.connect 0) else .idle
  | .markInvalid => .storing .invalid
  | .shutdownWrite => if status = .connected then .storing .shutdownWrite else .idle

def afterConnect (caller : Caller) (result : ConnectResult) : ThreadPc :=
  match result, caller with
  | .succeeded, _ | .isConnected, _ => .storing .connected
  | .inProgress, _ => .storing .connecting
  -- EINTR is retried by `connect` only.
  | .interrupted, .connect retryTimes =>
      if retryTimes < 3 then .connecting (.connect (retryTimes + 1)) else .idle
  | .unknown, .reconnect => .storing .closed
  | .interrupted, .reconnect | .unknown, .connect _ | .refused, _ => .loading

variable {θ : Type*}

def Instance.construct (status : TcpStatus) : Instance θ :=
  { status, valid := true, threads := fun _ => .idle, destroyed := false, closes := 0
    ended := Final status }

section Threads
variable [DecidableEq θ]

def Instance.setThread (s : Instance θ) (t : θ) (pc : ThreadPc) : Instance θ :=
  { s with threads := Function.update s.threads t pc }

def Instance.store (s : Instance θ) (status : TcpStatus) : Instance θ :=
  { s with status, ended := s.ended || Final status }

inductive Move (θ : Type*) where
  | call (t : θ) (call : Call)
  | advance (t : θ)
  | connected (t : θ) (result : ConnectResult)
  | destroy

/-- The next step of a call, where it is not the result of `::connect`. -/
def advance (s : Instance θ) (t : θ) : Option (Instance θ) :=
  match s.threads t with
  | .idle | .connecting _ => none
  -- A failed exchange loads the status it found, and the switch may assign nothing.
  | .exchanging setter current next =>
      some (if s.status = current then (s.store next).setThread t .idle
        else s.setThread t (.exchanging setter s.status (setter.next s.status next)))
  | .loading => some (s.setThread t (if Final s.status then .idle else .closing s.status))
  | .closing current =>
      some (if s.status = current then (s.store .closed).setThread t .releasing
        else s.setThread t (if Final s.status then .idle else .closing s.status))
  | .releasing => some ({ s with closes := s.closes + 1 }.setThread t .idle)
  -- A plain store, whatever the status has become since the caller looked.
  | .storing status => some ((s.store status).setThread t .idle)

def threadMove (s : Instance θ) : Move θ → Option (Instance θ)
  | .call t call =>
      if s.destroyed = false ∧ s.threads t = .idle then some (s.setThread t (call.enter s.status))
      else none
  | .advance t => advance s t
  | .connected t result =>
      match s.threads t with
      | .connecting caller => some (s.setThread t (afterConnect caller result))
      | _ => none
  | .destroy => none

/-- `~io` runs when no thread is inside the instance any more. -/
def Destroys (s after : Instance θ) : Prop :=
  (∀ t, s.threads t = .idle) ∧ s.destroyed = false ∧
    after = { s with destroyed := true, closes := s.closes + if s.valid then 1 else 0 }

/-- An instance is constructed with a valid descriptor and any status. -/
def tcpSystem (θ : Type*) [DecidableEq θ] : System (Instance θ) (Move θ) where
  init s := ∃ status, s = .construct status
  step before move after := threadMove before move = some after ∨ move = .destroy ∧ Destroys before after

@[simp] theorem set_thread_self (s : Instance θ) (t : θ) (pc : ThreadPc) :
    (s.setThread t pc).threads t = pc := Function.update_self ..

theorem set_thread_other (s : Instance θ) {t u : θ} (pc : ThreadPc) (other : u ≠ t) :
    (s.setThread t pc).threads u = s.threads u := Function.update_of_ne other ..

end Threads

section Steps
variable [DecidableEq θ] {s after : Instance θ}

inductive TcpStep (s : Instance θ) : Move θ → Instance θ → Prop where
  | call {t : θ} (call : Call) (alive : s.destroyed = false) (pc : s.threads t = .idle) :
      TcpStep s (.call t call) (s.setThread t (call.enter s.status))
  | exchanged {t : θ} {setter : Setter} {current next : TcpStatus}
      (pc : s.threads t = .exchanging setter current next) (same : s.status = current) :
      TcpStep s (.advance t) ((s.store next).setThread t .idle)
  | retried {t : θ} {setter : Setter} {current next : TcpStatus}
      (pc : s.threads t = .exchanging setter current next) (changed : s.status ≠ current) :
      TcpStep s (.advance t)
        (s.setThread t (.exchanging setter s.status (setter.next s.status next)))
  | looked {t : θ} (pc : s.threads t = .loading ∨
        ∃ current, s.threads t = .closing current ∧ s.status ≠ current) :
      TcpStep s (.advance t)
        (s.setThread t (if Final s.status then .idle else .closing s.status))
  | closed {t : θ} (pc : s.threads t = .closing s.status) :
      TcpStep s (.advance t) ((s.store .closed).setThread t .releasing)
  | released {t : θ} (pc : s.threads t = .releasing) :
      TcpStep s (.advance t) ({ s with closes := s.closes + 1 }.setThread t .idle)
  | stored {t : θ} {status : TcpStatus} (pc : s.threads t = .storing status) :
      TcpStep s (.advance t) ((s.store status).setThread t .idle)
  | connected {t : θ} {caller : Caller} (result : ConnectResult)
      (pc : s.threads t = .connecting caller) :
      TcpStep s (.connected t result) (s.setThread t (afterConnect caller result))
  | destroyed (idle : ∀ t, s.threads t = .idle) (alive : s.destroyed = false) :
      TcpStep s .destroy
        { s with destroyed := true, closes := s.closes + if s.valid then 1 else 0 }

theorem advance_steps {t : θ} (moves : advance s t = some after) : TcpStep s (.advance t) after := by
  unfold advance at moves
  split at moves
  · cases moves
  · cases moves
  · rename_i pc
    cases moves
    split
    · rename_i same
      exact .exchanged pc same
    · rename_i changed
      exact .retried pc changed
  · rename_i pc
    cases moves
    exact .looked (.inl pc)
  · rename_i current pc
    cases moves
    split
    · rename_i same
      rw [← same] at pc
      exact .closed pc
    · rename_i changed
      exact .looked (.inr ⟨current, pc, changed⟩)
  · rename_i pc
    cases moves
    exact .released pc
  · rename_i pc
    cases moves
    exact .stored pc

theorem tcp_steps {move : Move θ} (moves : (tcpSystem θ).step s move after) :
    TcpStep s move after := by
  rcases moves with moved | ⟨rfl, idle, alive, rfl⟩
  · cases move with
    | call t call =>
        simp only [threadMove] at moved
        split at moved
        · rename_i free
          cases moved
          exact .call call free.1 free.2
        · cases moved
    | advance t => exact advance_steps moved
    | connected t result =>
        simp only [threadMove] at moved
        split at moved
        · rename_i pc
          cases moved
          exact .connected result pc
        · cases moved
    | destroy => cases moved
  · exact .destroyed idle alive

def afterMoves (allowed : Instance θ → Move θ → Prop) [∀ s move, Decidable (allowed s move)]
    (status : TcpStatus) (moves : List (Move θ)) : Option (Instance θ) :=
  moves.foldlM (fun s move => if allowed s move then threadMove s move else none)
    (.construct status)

theorem moves_reachable {allowed : Instance θ → Move θ → Prop}
    [∀ s move, Decidable (allowed s move)] {status : TcpStatus} {moves : List (Move θ)}
    (ran : (afterMoves allowed status moves).isSome) :
    ReachableBy (tcpSystem θ) allowed ((afterMoves allowed status moves).get ran) := by
  have begins : (tcpSystem θ).init (.construct status) := ⟨status, rfl⟩
  exact guarded_reachable (fun _ _ _ => Or.inl) (.start begins) (Option.some_get ran).symm

end Steps

end Npoller.TcpRace
