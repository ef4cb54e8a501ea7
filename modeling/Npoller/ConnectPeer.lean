import Mathlib.Data.List.Basic
import Npoller.StepSystem
import Npoller.TcpSetters

/-!
The peer that a tcp instance remembers. `tcp::connect` writes `address` and `port` only
in the branches of `EINPROGRESS` and of success; after `EALREADY` and `EISCONN` they are
what they were before. `tcp::reconnect` connects to `address`.
-/

namespace Npoller.ConnectPeer

open StepSystem TcpSetters

structure SockaddrIn where
  sinFamily : Nat
  sAddr : Nat
  sinPort : Nat
  deriving DecidableEq, Repr

def htons (port : Nat) : Nat := port % 256 * 256 + port / 256 % 256

/-- `sAddr` is what `inet_addr` makes of the address. -/
def makeSockaddrIn (sAddr port : Nat) : SockaddrIn where
  sinFamily := 2
  sAddr
  sinPort := htons port

structure Tcp where
  status : TcpStatus
  address : SockaddrIn
  port : Nat
  writeBusy : Bool
  supportEpollrdhup : Bool
  hasConnectedHandler : Bool

/-- What a `::connect` of `tcp::connect` reports. -/
inductive Answer where
  | success
  | einprogress
  | ealready
  | eisconn
  | eintr
  | other
  deriving DecidableEq, Repr

/-- `hook` is what the connect callback, and `set_addr_and_test` where it runs, make of
the status. -/
def Tcp.connectSuccess (hook : TcpStatus → TcpStatus) (s : Tcp) : Tcp :=
  { s with
    status := hook .connected, writeBusy := false, supportEpollrdhup := true
    hasConnectedHandler := false }

def Tcp.connectFail (hook : TcpStatus → TcpStatus) (s : Tcp) : Tcp :=
  { s with status := hook s.status, hasConnectedHandler := false }

def Tcp.close (s : Tcp) : Tcp := if Final s.status then s else { s with status := .closed }

def Tcp.setStatus (s : Tcp) (status : TcpStatus) : Tcp := { s with status }

/-- One turn of the loop in `tcp::connect`. -/
def Tcp.answered (hook : TcpStatus → TcpStatus) (other : SockaddrIn) (port : Nat) (s : Tcp) :
    Answer → Tcp
  | .einprogress => { s.setStatus .connecting with address := other, port }
  | .ealready => s.setStatus .connecting
  | .eisconn => s.connectSuccess hook
  | .eintr => s
  | .other => (s.connectFail hook).close
  | .success => { s.connectSuccess hook with address := other, port }

/-- `while (need_retry && retry_times++ < 3)`, with the retries that are left. -/
def Tcp.connectLoop (hook : TcpStatus → TcpStatus) (other : SockaddrIn) (port : Nat)
    (answers : Nat → Answer) : Nat → Nat → Tcp → Tcp
  | 0, turn, s => s.answered hook other port (answers turn)
  | left + 1, turn, s =>
      if answers turn = .eintr then
        connectLoop hook other port answers left (turn + 1) (s.answered hook other port .eintr)
      else s.answered hook other port (answers turn)

def Tcp.connect (hook : TcpStatus → TcpStatus) (sAddr port : Nat) (answers : Nat → Answer)
    (s : Tcp) : Tcp :=
  if s.status ≠ .initializing ∨ s.status = .invalid then s
  else s.connectLoop hook (makeSockaddrIn sAddr port) port answers 3 0

/-- What the `::connect` of `reconnect` reports, or `SO_ERROR` after it. -/
inductive Report where
  | success
  | unknown
  | pending
  | eisconn
  | other
  deriving DecidableEq, Repr

def Tcp.reported (hook : TcpStatus → TcpStatus) (s : Tcp) : Report → Tcp
  | .success | .eisconn => s.connectSuccess hook
  | .unknown => s.setStatus .closed
  | .pending => s.setStatus .connecting
  | .other => (s.connectFail hook).close

/-- `void tcp::reconnect()`, with the address it connects to. -/
def Tcp.reconnect (hook : TcpStatus → TcpStatus) (s : Tcp) (report : Report) :
    Option SockaddrIn × Tcp :=
  if s.status = .invalid ∨ s.status ≠ .connecting then (none, s)
  else (some s.address, s.reported hook report)

/-- An instance after its `connect`; `targets` are the addresses that `reconnect` has
connected to since. -/
structure Later where
  tcp : Tcp
  targets : List SockaddrIn

/-- `changed` is what any other call does to the status: none of them sets `connecting`. -/
inductive Step where
  | reconnect (hook : TcpStatus → TcpStatus) (report : Report)
  | changed (status : TcpStatus)

def Step.run (s : Later) : Step → Later
  | .reconnect hook report =>
      let (target, tcp) := s.tcp.reconnect hook report
      ⟨tcp, s.targets ++ target.toList⟩
  | .changed status => if status = .connecting then s else { s with tcp := s.tcp.setStatus status }

def laterSystem (connected : Tcp) : System Later Step where
  init s := s = ⟨connected, []⟩
  step before step after := step.run before = after

def Connecting (status : TcpStatus) : Prop := status = .connecting ∨ status = .connected

/-- An instance that is connecting or connected has the peer, and every later `::connect`
goes to it. -/
structure Remembers (sAddr port : Nat) (s : Tcp) : Prop where
  peer : Connecting s.status → s.address = makeSockaddrIn sAddr port ∧ s.port = port
  later : ∀ t, Reachable (laterSystem s) t →
    ∀ target ∈ t.targets, target = makeSockaddrIn sAddr port

/-- The first answer that is not `EINTR`, or the fourth. -/
def lastAnswer (answers : Nat → Answer) : Nat → Nat → Answer
  | 0, turn => answers turn
  | left + 1, turn =>
      if answers turn = .eintr then lastAnswer answers left (turn + 1) else answers turn

/-- The answers after which the status says that there is a peer, and none is stored. -/
def Forgets (hook : TcpStatus → TcpStatus) : Answer → Prop
  | .ealready => True
  | .eisconn => Connecting (hook .connected)
  | .success | .einprogress | .eintr | .other => False

variable {hook : TcpStatus → TcpStatus} {other : SockaddrIn} {port : Nat} {s : Tcp}

theorem connect_loop_last (answers : Nat → Answer) (left turn : Nat) :
    s.connectLoop hook other port answers left turn =
      s.answered hook other port (lastAnswer answers left turn) := by
  induction left generalizing turn with
  | zero => rfl
  | succ left ih =>
      rw [Tcp.connectLoop, lastAnswer]
      split
      · exact ih (turn + 1)
      · rfl

theorem close_final (s : Tcp) : Final s.close.status := by
  unfold Tcp.close
  split
  · rename_i final
    exact final
  · exact Or.inl rfl

theorem final_not_connecting {status : TcpStatus} (final : Final status) : ¬Connecting status := by
  rcases final with rfl | rfl
  · rintro (same | same) <;> cases same
  · rintro (same | same) <;> cases same

theorem answered_peer_iff (fresh : s.status = .initializing) (answer : Answer) :
    (Connecting (s.answered hook other port answer).status →
      (s.answered hook other port answer).address = other ∧
        (s.answered hook other port answer).port = port) ↔
    (Forgets hook answer → s.address = other ∧ s.port = port) := by
  cases answer with
  | einprogress => exact ⟨fun _ => False.elim, fun _ _ => ⟨rfl, rfl⟩⟩
  | success => exact ⟨fun _ => False.elim, fun _ _ => ⟨rfl, rfl⟩⟩
  | ealready => exact ⟨fun peer _ => peer (Or.inl rfl), fun keeps _ => keeps trivial⟩
  | eisconn => exact Iff.rfl
  | eintr =>
      refine ⟨fun _ => False.elim, fun _ connecting => ?_⟩
      change Connecting s.status at connecting
      rw [fresh] at connecting
      rcases connecting with same | same <;> cases same
  | other =>
      refine ⟨fun _ => False.elim, fun _ connecting => ?_⟩
      exact absurd connecting (final_not_connecting (close_final (s.connectFail hook)))

theorem reported_address (report : Report) : (s.reported hook report).address = s.address := by
  cases report with
  | success => rfl
  | unknown => rfl
  | pending => rfl
  | eisconn => rfl
  | other =>
      change (s.connectFail hook).close.address = _
      unfold Tcp.close
      split
      · rfl
      · rfl

theorem reconnect_pending (pending : s.status = .connecting) (report : Report) :
    s.reconnect hook report = (some s.address, s.reported hook report) := by
  rw [Tcp.reconnect, if_neg]
  rw [pending]
  rintro (other | other)
  · cases other
  · exact other rfl

theorem reconnect_settled (settled : s.status ≠ .connecting) (report : Report) :
    s.reconnect hook report = (none, s) := if_pos (Or.inr settled)

/-- A pending instance has the peer, and so far only the peer was connected to. -/
structure Headed (peer : SockaddrIn) (s : Later) : Prop where
  pending : s.tcp.status = .connecting → s.tcp.address = peer
  targets : ∀ target ∈ s.targets, target = peer

theorem step_headed {peer : SockaddrIn} {s : Later} (headed : Headed peer s) (step : Step) :
    Headed peer (step.run s) := by
  cases step with
  | changed status =>
      rw [Step.run]
      split
      · exact headed
      · rename_i settled
        exact ⟨fun same => absurd same settled, headed.targets⟩
  | reconnect hook report =>
      by_cases pending : s.tcp.status = .connecting
      · have here := headed.pending pending
        rw [Step.run, reconnect_pending pending]
        constructor
        · intro _
          exact (reported_address report).trans here
        · intro target inside
          rcases List.mem_append.mp inside with old | new
          · exact headed.targets target old
          · rw [Option.mem_toList] at new
            cases new
            exact here
      · rw [Step.run, reconnect_settled pending]
        simpa using headed

theorem later_headed {peer : SockaddrIn} {t : Later} (begins : Headed peer ⟨s, []⟩)
    (reached : Reachable (laterSystem s) t) : Headed peer t := by
  apply invariant _ _ reached
  · rintro _ rfl
    exact begins
  · rintro before step _ headed - rfl
    exact step_headed headed step

theorem connect_answered (fresh : s.status = .initializing) (sAddr : Nat) (answers : Nat → Answer) :
    s.connect hook sAddr port answers =
      s.answered hook (makeSockaddrIn sAddr port) port (lastAnswer answers 3 0) := by
  rw [Tcp.connect, if_neg, connect_loop_last]
  rw [fresh]
  rintro (other | other)
  · exact other rfl
  · cases other

theorem remembers_iff {sAddr : Nat} : Remembers sAddr port s ↔
    (Connecting s.status → s.address = makeSockaddrIn sAddr port ∧ s.port = port) := by
  constructor
  · exact Remembers.peer
  · intro peer
    refine ⟨peer, fun t reached => ?_⟩
    have begins : Headed (makeSockaddrIn sAddr port) ⟨s, []⟩ :=
      ⟨fun pending => (peer (Or.inl pending)).1, fun _ inside => by cases inside⟩
    exact (later_headed begins reached).targets

/-- The instance remembers its peer unless the last answer is one that forgets it. -/
theorem connect_remembers_when (hook : TcpStatus → TcpStatus) (sAddr port : Nat)
    (answers : Nat → Answer) (s : Tcp) (fresh : s.status = .initializing) :
    Remembers sAddr port (s.connect hook sAddr port answers) ↔
      (Forgets hook (lastAnswer answers 3 0) →
        s.address = makeSockaddrIn sAddr port ∧ s.port = port) := by
  rw [remembers_iff, connect_answered fresh]
  exact answered_peer_iff fresh _

def newTcp : Tcp where
  status := .initializing
  address := ⟨0, 0, 0⟩
  port := 0
  writeBusy := false
  supportEpollrdhup := false
  hasConnectedHandler := true

theorem connect_remembers_when_retried :
    Remembers 1 80 (newTcp.connect id 1 80 fun turn => if turn = 0 then .eintr else .einprogress) :=
  (connect_remembers_when id 1 80 _ newTcp rfl).mpr False.elim

/-- An interrupted attempt goes on in the kernel, and the second one finds it pending. -/
def interrupted (turn : Nat) : Answer := if turn = 0 then .eintr else .ealready

/-- The next reconnect goes to an address that nobody asked for. -/
theorem interrupted_connect_forgets :
    (newTcp.connect id 1 80 interrupted).status = .connecting ∧
      ((newTcp.connect id 1 80 interrupted).reconnect id .pending).1 = some ⟨0, 0, 0⟩ ∧
      ¬Remembers 1 80 (newTcp.connect id 1 80 interrupted) := by
  refine ⟨rfl, rfl, fun remembers => ?_⟩
  have same := (remembers.peer (Or.inl rfl)).1
  exact absurd same (by decide)

end Npoller.ConnectPeer
