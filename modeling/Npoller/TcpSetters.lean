/-!
`tcp::tcp_status` of `io/tcp.h` with the tests on it, and the switch statements of
`tcp::set_readable` and `tcp::set_writable`. A switch computes the `next_status` of
one turn of the retry loop from the status it has loaded; it has no case for the
final ones and keeps the `next_status` of the turn before where it assigns none.
-/

namespace Npoller.TcpSetters

inductive TcpStatus where
  | initializing
  | connecting
  | connected
  | peerShutdownWrite
  | shutdownWrite
  | closed
  | invalid
  deriving DecidableEq, Repr

/-- `readable_safe` and `readable_unsafe` -/
def Readable (status : TcpStatus) : Prop := status = .connected ∨ status = .shutdownWrite

def Writable (status : TcpStatus) : Prop := status = .connected ∨ status = .peerShutdownWrite

/-- The statuses that `is_open` tells from the others. -/
def Final (status : TcpStatus) : Prop := status = .closed ∨ status = .invalid

instance (status : TcpStatus) : Decidable (Readable status) := inferInstanceAs (Decidable (_ ∨ _))

instance (status : TcpStatus) : Decidable (Writable status) := inferInstanceAs (Decidable (_ ∨ _))

instance (status : TcpStatus) : Decidable (Final status) := inferInstanceAs (Decidable (_ ∨ _))

inductive Setter where
  | readable (flag : Bool)
  | writable (flag : Bool)
  deriving DecidableEq, Repr

def readableNext (flag : Bool) (current next : TcpStatus) : TcpStatus :=
  match current with
  | .initializing | .connecting => if flag then .connected else next
  | .connected => if flag then next else .peerShutdownWrite
  | .peerShutdownWrite => if flag then .connected else next
  | .shutdownWrite => if flag then next else .closed
  | .closed | .invalid => next

def writableNext (flag : Bool) (current next : TcpStatus) : TcpStatus :=
  match current with
  | .initializing | .connecting => if flag then .connected else next
  | .connected => if flag then next else .shutdownWrite
  | .peerShutdownWrite => if flag then next else .closed
  | .shutdownWrite => if flag then .connected else next
  | .closed | .invalid => next

def Setter.next : Setter → TcpStatus → TcpStatus → TcpStatus
  | .readable flag => readableNext flag
  | .writable flag => writableNext flag

/-- A setter that no other thread disturbs: the first turn starts with `next_status`
the status itself, and its exchange succeeds. -/
def Setter.apply (setter : Setter) (status : TcpStatus) : TcpStatus := setter.next status status

theorem next_final (setter : Setter) {current : TcpStatus} (final : Final current)
    (next : TcpStatus) : setter.next current next = next := by
  rcases final with rfl | rfl
  · cases setter <;> rfl
  · cases setter <;> rfl

theorem apply_final (setter : Setter) {status : TcpStatus} (final : Final status) :
    setter.apply status = status := next_final setter final status

end Npoller.TcpSetters
