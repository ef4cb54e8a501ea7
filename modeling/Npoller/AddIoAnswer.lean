import Npoller.IoMap

/-!
`event_processor::add_io` with the third registry beside `io_map` and the managers: the
descriptors in the epoll set of each processor. `EPOLL_CTL_ADD` and `EPOLL_CTL_DEL`
change it where they succeed, and the kernel takes a descriptor out when it is closed.
The other two registries are those of `IoMap`, in the same order of updates.
-/

namespace Npoller.AddIoAnswer

open StepSystem TcpSetters IoMap

variable {π ι : Type*} [DecidableEq π] [DecidableEq ι]

structure Watched (π ι : Type*) where
  procs : Processors π ι
  epoll : π → Int → Bool

def Watched.setIo (s : Watched π ι) (x : ι) (io : Io π) : Watched π ι :=
  { s with procs := s.procs.setIo x io }

/-- `bool remove_io(int fd)`; `deleted` is what `EPOLL_CTL_DEL` reports. -/
def Watched.removeIo (s : Watched π ι) (p : π) (fd : Int) (deleted : Bool) :
    Result × Watched π ι :=
  if (s.procs.ioMap p fd).isNone then (.returned false, s)
  else (.returned deleted,
    { procs := (s.procs.removeIo p fd deleted).2
      epoll := fun q e => if deleted ∧ q = p ∧ e = fd then false else s.epoll q e })

def Watched.updateManager (s : Watched π ι) (x : ι) (manager : Option π) (deleted : Bool) :
    Watched π ι :=
  let s := match (s.procs.ios x).manager with
    | some p => (s.removeIo p (s.procs.ios x).fd deleted).2
    | none => s
  s.setIo x { s.procs.ios x with manager := manager }

def Watched.markInvalid (s : Watched π ι) (x : ι) (deleted : Bool) : Watched π ι :=
  match (s.procs.ios x).kind with
  | .plain =>
      let s := s.updateManager x none deleted
      s.setIo x { s.procs.ios x with valid := false, readable := false, writable := false }
  | .tcp => s.setIo x { s.procs.ios x with status := .invalid }

/-- `tcp::close` leaves its manager by itself. -/
def Watched.leaveManager (s : Watched π ι) (x : ι) (deleted : Bool) : Watched π ι :=
  match (s.procs.ios x).manager with
  | some p =>
      let s := (s.removeIo p (s.procs.ios x).fd deleted).2
      s.setIo x { s.procs.ios x with manager := none }
  | none => s

/-- `::close(fd)`: no epoll set holds the descriptor any more. -/
def Watched.closeFd (s : Watched π ι) (fd : Int) : Watched π ι :=
  { s with epoll := fun q e => if e = fd then false else s.epoll q e }

def Watched.close (s : Watched π ι) (x : ι) (deleted : Bool) : Watched π ι :=
  match (s.procs.ios x).kind with
  | .plain =>
      if (s.procs.ios x).valid then
        (s.closeFd (s.procs.ios x).fd).setIo x { s.procs.ios x with valid := false }
      else s
  | .tcp =>
      let s := s.leaveManager x deleted
      if Final (s.procs.ios x).status then s
      else (s.closeFd (s.procs.ios x).fd).setIo x { s.procs.ios x with status := .closed }

def Watched.getEvent (s : Watched π ι) (x : ι) (deleted : Bool) : Bool × Watched π ι :=
  match (s.procs.ios x).kind with
  | .plain => ((s.procs.ios x).readable || (s.procs.ios x).writable, s)
  | .tcp =>
      match (s.procs.ios x).status with
      | .invalid => (false, s)
      | .closed => (false, s.close x deleted)
      | .peerShutdownWrite =>
          (true, s.setIo x { s.procs.ios x with supportEpollrdhup := false })
      | _ => (true, s)

/-- The part of `add_io` from its label `retry` to a result that is not retried. -/
def Watched.epollCtlAdd (s : Watched π ι) (x : ι) (first second : CtlResult) (deleted : Bool) :
    Option CtlResult × Watched π ι :=
  match s.getEvent x deleted with
  | (false, s) => (none, s)
  | (true, s) =>
      if first = .einval ∧ (s.procs.ios x).supportEpollrdhup then
        match (s.setIo x { s.procs.ios x with supportEpollrdhup := false }).getEvent x deleted with
        | (false, s) => (none, s)
        | (true, s) => (some second, s)
      else (some first, s)

/-- `EPOLL_CTL_ADD` has succeeded, and `io_map.insert` puts the instance in. -/
def Watched.inserted (s : Watched π ι) (p : π) (x : ι) : Watched π ι :=
  let fd := (s.procs.ios x).fd
  { procs := { s.procs with ioMap := fun q e =>
      if q = p ∧ e = fd ∧ s.procs.ioMap p fd = none then some x else s.procs.ioMap q e }
    epoll := fun q e => if q = p ∧ e = fd then true else s.epoll q e }

def Watched.added (s : Watched π ι) (p : π) (x : ι) (deleted : Bool) :
    CtlResult → Result × Watched π ι
  | .ok => (.returned true, (s.inserted p x).updateManager x (some p) deleted)
  | .ebadf => (.returned false, s.markInvalid x deleted)
  | .einval => (.returned false, s)
  | .eexist => (.thrown "Try to add a fd which epoll fd is listening!", s)
  | .eperm => (.returned true, s)
  | .failed => (.returned false, s)

/-- `bool event_processor::add_io(std::shared_ptr<io>)`; `deleted` is what the
`EPOLL_CTL_DEL` of the former manager reports, if there is one. -/
def Watched.addIo (s : Watched π ι) (p : π) (x : ι) (running : Bool) (first second : CtlResult)
    (deleted : Bool) : Result × Watched π ι :=
  if s.procs.admits p x running = false then (.returned false, s)
  else if (s.procs.ioMap p (s.procs.ios x).fd).isSome then
    (.thrown ("Try to add a fd " ++ toString (s.procs.ios x).fd ++ " which in epoll fd 's map!"), s)
  else
    match s.epollCtlAdd x first second deleted with
    | (none, s) => (.returned false, s)
    | (some result, s) => s.added p x deleted result

inductive Call (π ι : Type*) where
  | addIo (p : π) (x : ι) (running : Bool) (first second : CtlResult) (deleted : Bool)
  | removeIo (p : π) (fd : Int) (deleted : Bool)
  | close (x : ι) (deleted : Bool)
  | markInvalid (x : ι) (deleted : Bool)
  | change (x : ι) (readable writable : Bool) (status : TcpStatus) (support : Bool)

/-- `change` is whatever else the program does to an instance. -/
def Call.run (s : Watched π ι) : Call π ι → Watched π ι
  | .addIo p x running first second deleted => (s.addIo p x running first second deleted).2
  | .removeIo p fd deleted => (s.removeIo p fd deleted).2
  | .close x deleted => s.close x deleted
  | .markInvalid x deleted => s.markInvalid x deleted
  | .change x readable writable status support => s.setIo x
      { s.procs.ios x with readable, writable, status, supportEpollrdhup := support }

/-- Nothing is registered at first; the instances are any. -/
def watchedSystem (π ι : Type*) [DecidableEq π] [DecidableEq ι] :
    System (Watched π ι) (Call π ι) where
  init s := (∀ p fd, s.procs.ioMap p fd = none) ∧ (∀ x, (s.procs.ios x).manager = none) ∧
    ∀ p fd, s.epoll p fd = false
  step before call after := call.run before = after

section Refinement
variable {s : Watched π ι} {p : π} {x : ι}

omit [DecidableEq ι] in
theorem remove_io_procs (fd : Int) (deleted : Bool) :
    (s.removeIo p fd deleted).1 = (s.procs.removeIo p fd deleted).1 ∧
      (s.removeIo p fd deleted).2.procs = (s.procs.removeIo p fd deleted).2 := by
  unfold Watched.removeIo
  split
  · rename_i absent
    rw [Processors.removeIo, if_pos absent]
    exact ⟨rfl, rfl⟩
  · rename_i present
    rw [Processors.removeIo, if_neg present]
    exact ⟨rfl, rfl⟩

omit [DecidableEq ι] in
theorem remove_io_any (s : Processors π ι) (fd : Int) (deleted other : Bool) :
    (s.removeIo p fd deleted).2 = (s.removeIo p fd other).2 := by
  unfold Processors.removeIo
  split
  · rfl
  · rfl

omit [DecidableEq ι] in
theorem leave_procs (x : ι) (deleted : Bool) :
    (s.removeIo p (s.procs.ios x).fd deleted).2.procs =
      (s.procs.removeIo p (s.procs.ios x).fd true).2 :=
  (remove_io_procs _ deleted).2.trans (remove_io_any s.procs _ deleted true)

theorem update_manager_procs (manager : Option π) (deleted : Bool) :
    (s.updateManager x manager deleted).procs = s.procs.updateManager x manager := by
  unfold Watched.updateManager Processors.updateManager
  cases (s.procs.ios x).manager with
  | none => rfl
  | some p =>
      dsimp only [Watched.setIo]
      rw [leave_procs]

theorem mark_invalid_procs (deleted : Bool) :
    (s.markInvalid x deleted).procs = s.procs.markInvalid x := by
  unfold Watched.markInvalid Processors.markInvalid
  cases (s.procs.ios x).kind with
  | plain =>
      dsimp only [Watched.setIo]
      rw [update_manager_procs]
  | tcp => rfl

theorem leave_manager_procs (deleted : Bool) :
    (s.leaveManager x deleted).procs = s.procs.leaveManager x := by
  unfold Watched.leaveManager Processors.leaveManager
  cases (s.procs.ios x).manager with
  | none => rfl
  | some p =>
      dsimp only [Watched.setIo]
      rw [leave_procs]

theorem close_procs (deleted : Bool) : (s.close x deleted).procs = s.procs.close x := by
  unfold Watched.close Processors.close
  cases (s.procs.ios x).kind with
  | plain =>
      dsimp only
      split
      · rfl
      · rfl
  | tcp =>
      dsimp only
      rw [leave_manager_procs]
      split
      · exact leave_manager_procs deleted
      · dsimp only [Watched.setIo, Watched.closeFd]
        rw [leave_manager_procs]

theorem get_event_procs (deleted : Bool) :
    (s.getEvent x deleted).1 = (s.procs.getEvent x).1 ∧
      (s.getEvent x deleted).2.procs = (s.procs.getEvent x).2 := by
  unfold Watched.getEvent Processors.getEvent
  cases (s.procs.ios x).kind with
  | plain => exact ⟨rfl, rfl⟩
  | tcp =>
      cases (s.procs.ios x).status with
      | closed => exact ⟨rfl, close_procs deleted⟩
      | _ => exact ⟨rfl, rfl⟩

theorem event_seen {answer : Bool} {t : Watched π ι} {deleted : Bool}
    (event : s.getEvent x deleted = (answer, t)) : s.procs.getEvent x = (answer, t.procs) := by
  have got := get_event_procs (s := s) (x := x) deleted
  rw [event] at got
  exact Prod.ext got.1.symm got.2.symm

theorem epoll_ctl_add_procs (first second : CtlResult) (deleted : Bool) :
    (s.epollCtlAdd x first second deleted).1 = (s.procs.epollCtlAdd x first second).1 ∧
      (s.epollCtlAdd x first second deleted).2.procs =
        (s.procs.epollCtlAdd x first second).2 := by
  unfold Watched.epollCtlAdd Processors.epollCtlAdd
  rcases event : s.getEvent x deleted with ⟨answer, t⟩
  rw [event_seen event]
  cases answer with
  | false => exact ⟨rfl, rfl⟩
  | true =>
      dsimp only
      split
      · rcases again : (t.setIo x { t.procs.ios x with
          supportEpollrdhup := false }).getEvent x deleted with ⟨answer, u⟩
        have seen := event_seen again
        change (t.procs.setIo x _).getEvent x = _ at seen
        rw [seen]
        cases answer with
        | false => exact ⟨rfl, rfl⟩
        | true => exact ⟨rfl, rfl⟩
      · exact ⟨rfl, rfl⟩

theorem added_procs (result : CtlResult) (deleted : Bool) :
    (s.added p x deleted result).1 = (s.procs.added p x result).1 ∧
      (s.added p x deleted result).2.procs = (s.procs.added p x result).2 := by
  cases result with
  | ok => exact ⟨rfl, update_manager_procs (some p) deleted⟩
  | ebadf => exact ⟨rfl, mark_invalid_procs deleted⟩
  | einval | eexist | eperm | failed => exact ⟨rfl, rfl⟩

theorem add_io_refines (running : Bool) (first second : CtlResult) (deleted : Bool) :
    (s.addIo p x running first second deleted).1 = (s.procs.addIo p x running first second).1 ∧
      (s.addIo p x running first second deleted).2.procs =
        (s.procs.addIo p x running first second).2 := by
  have added := epoll_ctl_add_procs (s := s) (x := x) first second deleted
  unfold Watched.addIo Processors.addIo
  split
  · exact ⟨rfl, rfl⟩
  · split
    · exact ⟨rfl, rfl⟩
    · rcases called : s.epollCtlAdd x first second deleted with ⟨reported, t⟩
      have seen : s.procs.epollCtlAdd x first second = (reported, t.procs) := by
        rw [called] at added
        exact Prod.ext added.1.symm added.2.symm
      rw [seen]
      cases reported with
      | none => exact ⟨rfl, rfl⟩
      | some result => exact added_procs result deleted

theorem call_refines (s : Watched π ι) (call : Call π ι) :
    (∃ op : Op π ι, (Call.run s call).procs = Op.run s.procs op) ∨
      ∃ x io, io.fd = (s.procs.ios x).fd ∧ io.manager = (s.procs.ios x).manager ∧
        (Call.run s call).procs = s.procs.setIo x io := by
  cases call with
  | addIo p x running first second deleted =>
      exact Or.inl ⟨.addIo p x running first second,
        (add_io_refines running first second deleted).2⟩
  | removeIo p fd deleted => exact Or.inl ⟨.removeIo p fd deleted, (remove_io_procs fd deleted).2⟩
  | close x deleted => exact Or.inl ⟨.close x, close_procs deleted⟩
  | markInvalid x deleted => exact Or.inl ⟨.markInvalid x, mark_invalid_procs deleted⟩
  | change x readable writable status support =>
      let io := { s.procs.ios x with readable, writable, status, supportEpollrdhup := support }
      exact Or.inr ⟨x, io, rfl, rfl, rfl⟩

end Refinement

section Answers
variable {s : Watched π ι} {p : π} {x : ι}

/-- `io_map` maps the descriptor to the instance, the epoll set has it, and the
processor is the manager. -/
structure Registered (p : π) (x : ι) (after : Watched π ι) : Prop where
  mapped : after.procs.ioMap p (after.procs.ios x).fd = some x
  polled : after.epoll p (after.procs.ios x).fd = true
  managed : (after.procs.ios x).manager = some p

structure Unchanged (p : π) (x : ι) (s after : Watched π ι) : Prop where
  mapped : after.procs.ioMap p = s.procs.ioMap p
  polled : after.epoll p = s.epoll p
  managed : (after.procs.ios x).manager = (s.procs.ios x).manager

/-- What an answer of `add_io` tells: true that the instance is registered, false or an
exception that nothing has changed. -/
def Truthful (p : π) (x : ι) (s : Watched π ι) (answer : Result × Watched π ι) : Prop :=
  (answer.1 = .returned true → Registered p x answer.2) ∧
    (answer.1 ≠ .returned true → Unchanged p x s answer.2)

/-- `get_event` gives the events to wait for. -/
def Watches (io : Io π) : Prop :=
  match io.kind with
  | .plain => io.readable = true ∨ io.writable = true
  | .tcp => ¬Final io.status

def asksRdhup (io : Io π) : Bool :=
  match io.kind, io.status with
  | .tcp, .peerShutdownWrite => false
  | _, _ => io.supportEpollrdhup

/-- What the last `epoll_ctl` reports: the first one is retried after `EINVAL`. -/
def lastReport (io : Io π) (first second : CtlResult) : CtlResult :=
  if first = .einval ∧ asksRdhup io = true then second else first

/-- The reports of the last `epoll_ctl` that `add_io` answers truthfully. -/
def Told (p : π) (io : Io π) : CtlResult → Prop
  | .ok => io.manager ≠ some p
  | .ebadf => io.kind = .plain → io.manager = none
  | .eperm => False
  | .einval | .eexist | .failed => True

/-- Where `add_io` tells the truth: it refuses the instance at once, or there is
nothing to wait for and no manager is left thereby, or the last report is told. -/
def Honest (s : Watched π ι) (p : π) (x : ι) (running : Bool) (first second : CtlResult) : Prop :=
  s.procs.admits p x running = true →
    (¬Watches (s.procs.ios x) → (s.procs.ios x).kind = .tcp → (s.procs.ios x).manager = none) ∧
    (Watches (s.procs.ios x) → Told p (s.procs.ios x) (lastReport (s.procs.ios x) first second))

omit [DecidableEq π] in
@[simp] theorem watched_set_self (io : Io π) : (s.setIo x io).procs.ios x = io :=
  set_io_self io

omit [DecidableEq π] in
theorem watched_set_twice (io later : Io π) : (s.setIo x io).setIo x later = s.setIo x later := by
  simp [Watched.setIo, Processors.setIo]

omit [DecidableEq π] in
theorem watched_set_same : s.setIo x (s.procs.ios x) = s := by
  rw [Watched.setIo, Processors.setIo, Function.update_eq_self]

theorem get_event_watched (watches : Watches (s.procs.ios x)) (deleted : Bool) :
    s.getEvent x deleted = (true, s.setIo x
      { s.procs.ios x with supportEpollrdhup := asksRdhup (s.procs.ios x) }) := by
  have same := watched_set_same (s := s) (x := x)
  unfold Watched.getEvent
  generalize s.procs.ios x = io at watches same ⊢
  obtain ⟨kind, fd, valid, readable, writable, status, support, manager⟩ := io
  cases kind with
  | plain =>
      change (readable || writable, s) = (true, s.setIo x _)
      have some_ : (readable || writable) = true := by
        rw [Bool.or_eq_true]
        exact watches
      rw [some_]
      exact congrArg (Prod.mk true) same.symm
  | tcp =>
      cases status with
      | invalid | closed => exact absurd (by simp [Final]) watches
      | peerShutdownWrite => rfl
      | _ => exact congrArg (Prod.mk true) same.symm

theorem epoll_ctl_watched (watches : Watches (s.procs.ios x)) (first second : CtlResult)
    (deleted : Bool) : ∃ flag, s.epollCtlAdd x first second deleted =
      (some (lastReport (s.procs.ios x) first second),
        s.setIo x { s.procs.ios x with supportEpollrdhup := flag }) := by
  unfold Watched.epollCtlAdd lastReport
  rw [get_event_watched watches]
  dsimp only
  rw [watched_set_self]
  split
  · rw [watched_set_twice]
    have later : Watches ((s.setIo x
        { s.procs.ios x with supportEpollrdhup := false }).procs.ios x) := by
      rw [watched_set_self]
      exact watches
    rw [get_event_watched later, watched_set_twice, watched_set_self]
    exact ⟨_, rfl⟩
  · exact ⟨_, rfl⟩

theorem leave_manager_clears (deleted : Bool) :
    ((s.leaveManager x deleted).procs.ios x).manager = none := by
  unfold Watched.leaveManager
  cases managed : (s.procs.ios x).manager with
  | none => exact managed
  | some q =>
      dsimp only
      rw [watched_set_self]

theorem leave_manager_unchanged (deleted : Bool) :
    Unchanged p x s (s.leaveManager x deleted) ↔ (s.procs.ios x).manager = none := by
  constructor
  · intro unchanged
    rw [← unchanged.managed]
    exact leave_manager_clears deleted
  · intro free
    unfold Watched.leaveManager
    rw [free]
    exact ⟨rfl, rfl, rfl⟩

theorem leave_manager_status (deleted : Bool) :
    ((s.leaveManager x deleted).procs.ios x).status = (s.procs.ios x).status := by
  unfold Watched.leaveManager
  cases (s.procs.ios x).manager with
  | none => rfl
  | some q =>
      dsimp only
      rw [watched_set_self]
      dsimp only
      rw [(remove_io_procs _ deleted).2, remove_io_ios]

/-- `get_event` of a closed tcp closes it once more, which can only leave its manager. -/
theorem get_event_closed (kind : (s.procs.ios x).kind = .tcp)
    (closed : (s.procs.ios x).status = .closed) (deleted : Bool) :
    s.getEvent x deleted = (false, s.leaveManager x deleted) := by
  have final : Final ((s.leaveManager x deleted).procs.ios x).status := by
    rw [leave_manager_status, closed]
    exact Or.inl rfl
  unfold Watched.getEvent
  rw [kind, closed]
  dsimp only
  rw [Watched.close, kind]
  dsimp only
  rw [if_pos final]

theorem get_event_unwatched (unwatched : ¬Watches (s.procs.ios x))
    (valid : (s.procs.ios x).validSafe = true) (deleted : Bool) :
    (s.getEvent x deleted).1 = false ∧ (Unchanged p x s (s.getEvent x deleted).2 ↔
      ((s.procs.ios x).kind = .tcp → (s.procs.ios x).manager = none)) := by
  unfold Watches at unwatched
  cases kind : (s.procs.ios x).kind with
  | plain =>
      rw [kind] at unwatched
      rw [Watched.getEvent, kind]
      have none_ : ((s.procs.ios x).readable || (s.procs.ios x).writable) = false := by
        rw [Bool.or_eq_false_iff]
        simpa using unwatched
      exact ⟨none_, fun _ => nofun, fun _ => ⟨rfl, rfl, rfl⟩⟩
  | tcp =>
      rw [kind] at unwatched
      have final : Final (s.procs.ios x).status := not_not.mp unwatched
      have closed : (s.procs.ios x).status = .closed := by
        refine final.resolve_right ?_
        simpa [Io.validSafe, kind] using valid
      rw [get_event_closed kind closed, leave_manager_unchanged]
      exact ⟨rfl, fun free _ => free, fun free => free rfl⟩

omit [DecidableEq ι] in
theorem remove_io_epoll_other {q : π} (apart : p ≠ q) (fd : Int) (deleted : Bool) :
    (s.removeIo q fd deleted).2.epoll p = s.epoll p := by
  unfold Watched.removeIo
  split
  · rfl
  · funext e
    exact if_neg (fun here => apart here.2.1)

/-- The instance is registered unless the processor was its manager: `update_manager`
then takes out what `add_io` has just put in. -/
theorem registers_iff (free : s.procs.ioMap p (s.procs.ios x).fd = none) (deleted : Bool) :
    Registered p x ((s.inserted p x).updateManager x (some p) deleted) ↔
      (s.procs.ios x).manager ≠ some p := by
  have mapped : (s.inserted p x).procs.ioMap p (s.procs.ios x).fd = some x :=
    if_pos ⟨rfl, rfl, free⟩
  have polled : (s.inserted p x).epoll p (s.procs.ios x).fd = true := if_pos ⟨rfl, rfl⟩
  have same : (s.inserted p x).procs.ios x = s.procs.ios x := rfl
  unfold Watched.updateManager
  cases managed : (s.procs.ios x).manager with
  | none =>
      rw [same, managed]
      dsimp only
      refine ⟨fun _ => nofun, fun _ => ⟨?_, ?_, ?_⟩⟩
      · rw [watched_set_self]
        exact mapped
      · rw [watched_set_self]
        exact polled
      · rw [watched_set_self]
  | some q =>
      rw [same, managed]
      dsimp only
      have removed := (remove_io_procs (s := s.inserted p x) (p := q) (s.procs.ios x).fd deleted).2
      have fd : (((s.inserted p x).removeIo q (s.procs.ios x).fd deleted).2.procs.ios x).fd =
          (s.procs.ios x).fd := by
        rw [removed, remove_io_ios, same]
      constructor
      · rintro registered ⟨rfl⟩
        have listed := registered.mapped
        rw [watched_set_self] at listed
        dsimp only at listed
        rw [fd, Watched.setIo, set_io_map, removed, remove_io_map, if_pos ⟨rfl, rfl⟩] at listed
        cases listed
      · intro apart
        have other : p ≠ q := fun here => apart (congrArg some here.symm)
        refine ⟨?_, ?_, ?_⟩
        · rw [watched_set_self]
          dsimp only
          rw [fd, Watched.setIo, set_io_map, removed, remove_io_map,
            if_neg (fun here => other here.1)]
          exact mapped
        · rw [watched_set_self]
          dsimp only
          rw [fd]
          change ((s.inserted p x).removeIo q _ deleted).2.epoll p _ = true
          rw [remove_io_epoll_other other]
          exact polled
        · rw [watched_set_self]

theorem mark_invalid_unchanged (deleted : Bool) :
    Unchanged p x s (s.markInvalid x deleted) ↔
      ((s.procs.ios x).kind = .plain → (s.procs.ios x).manager = none) := by
  unfold Watched.markInvalid
  cases kind : (s.procs.ios x).kind with
  | plain =>
      dsimp only
      constructor
      · intro unchanged _
        have managed := unchanged.managed
        rw [watched_set_self] at managed
        rw [← managed]
        unfold Watched.updateManager
        rw [watched_set_self]
      · intro free
        unfold Watched.updateManager
        rw [free rfl]
        refine ⟨rfl, rfl, ?_⟩
        rw [watched_set_self, watched_set_self, free rfl]
  | tcp =>
      refine ⟨fun _ => nofun, fun _ => ⟨rfl, rfl, ?_⟩⟩
      rw [watched_set_self]

theorem added_truthful (result : CtlResult) (free : s.procs.ioMap p (s.procs.ios x).fd = none)
    (deleted : Bool) :
    Truthful p x s (s.added p x deleted result) ↔ Told p (s.procs.ios x) result := by
  have same : Unchanged p x s s := ⟨rfl, rfl, rfl⟩
  unfold Truthful
  cases result with
  | ok =>
      refine Iff.trans ?_ (registers_iff free deleted)
      refine ⟨fun told => told.1 rfl, fun registered => ⟨fun _ => registered, ?_⟩⟩
      exact fun refused => absurd rfl refused
  | ebadf =>
      refine Iff.trans ?_ (mark_invalid_unchanged (p := p) deleted)
      exact ⟨fun told => told.2 nofun, fun unchanged => ⟨nofun, fun _ => unchanged⟩⟩
  | eperm =>
      refine ⟨fun told => ?_, False.elim⟩
      have registered := told.1 rfl
      have mapped := registered.mapped
      change s.procs.ioMap p (s.procs.ios x).fd = some x at mapped
      rw [free] at mapped
      cases mapped
  | einval | eexist | failed => exact ⟨fun _ => trivial, fun _ => ⟨nofun, fun _ => same⟩⟩

omit [DecidableEq π] in
theorem truthful_set {flag : Bool} {answer : Result × Watched π ι} :
    Truthful p x (s.setIo x { s.procs.ios x with supportEpollrdhup := flag }) answer ↔
      Truthful p x s answer := by
  have managed :
      ((s.setIo x { s.procs.ios x with supportEpollrdhup := flag }).procs.ios x).manager =
        (s.procs.ios x).manager := by
    rw [watched_set_self]
  constructor
  · rintro ⟨registered, unchanged⟩
    refine ⟨registered, fun refused => ?_⟩
    have kept := unchanged refused
    exact ⟨kept.mapped, kept.polled, kept.managed.trans managed⟩
  · rintro ⟨registered, unchanged⟩
    refine ⟨registered, fun refused => ?_⟩
    have kept := unchanged refused
    exact ⟨kept.mapped, kept.polled, kept.managed.trans managed.symm⟩

omit [DecidableEq π] [DecidableEq ι] in
theorem refused_truthful {t : Watched π ι} :
    Truthful p x s (.returned false, t) ↔ Unchanged p x s t :=
  ⟨fun told => told.2 nofun, fun unchanged => ⟨nofun, fun _ => unchanged⟩⟩

/-- In every state, for an instance whose descriptor the processor does not hold and
whatever `epoll_ctl` reports, the answer is true exactly where it is honest. -/
theorem answer_tells_truth (s : Watched π ι) (p : π) (x : ι) (running : Bool)
    (first second : CtlResult) (deleted : Bool)
    (free : s.procs.ioMap p (s.procs.ios x).fd = none) :
    Truthful p x s (s.addIo p x running first second deleted) ↔
      Honest s p x running first second := by
  unfold Watched.addIo Honest
  by_cases admitted : s.procs.admits p x running = true
  · have open_ : ¬s.procs.admits p x running = false := by
      rw [admitted]
      exact Bool.noConfusion
    rw [if_neg open_, if_neg (by rw [free]; exact Bool.noConfusion)]
    by_cases watches : Watches (s.procs.ios x)
    · obtain ⟨flag, called⟩ := epoll_ctl_watched watches first second deleted
      rw [called]
      have freeStill : (s.setIo x { s.procs.ios x with supportEpollrdhup := flag }).procs.ioMap p
          ((s.setIo x { s.procs.ios x with supportEpollrdhup := flag }).procs.ios x).fd = none := by
        rw [watched_set_self]
        exact free
      have told := added_truthful (lastReport (s.procs.ios x) first second) freeStill deleted
      rw [truthful_set, watched_set_self] at told
      refine told.trans ⟨fun holds _ => ⟨fun never => absurd watches never, fun _ => holds⟩, ?_⟩
      exact fun honest => (honest admitted).2 watches
    · obtain ⟨refused, unchanged⟩ :=
        get_event_unwatched (p := p) watches (admits_valid admitted) deleted
      rcases event : s.getEvent x deleted with ⟨answer, t⟩
      rw [event] at refused unchanged
      dsimp only at refused unchanged
      subst refused
      have missed : s.epollCtlAdd x first second deleted = (none, t) := by
        rw [Watched.epollCtlAdd, event]
      rw [missed]
      refine refused_truthful.trans (unchanged.trans ⟨fun free _ => ⟨fun _ => free, ?_⟩, ?_⟩)
      · exact fun there => absurd there watches
      · exact fun honest => (honest admitted).1 watches
  · rw [Bool.not_eq_true] at admitted
    rw [if_pos admitted, admitted]
    refine refused_truthful.trans ⟨fun _ => nofun, fun _ => ?_⟩
    exact ⟨rfl, rfl, rfl⟩

/-- An acceptor is added, taken out by `remove_io`, which leaves it its manager, and
added again. -/
def unwatched : Watched Unit Unit := ⟨idle, fun _ _ => false⟩

def removed : Watched Unit Unit :=
  Call.run (Call.run unwatched (.addIo () () true .ok .ok true)) (.removeIo () 5 true)

theorem removed_reachable : Reachable (watchedSystem Unit Unit) removed := by
  have begins : (watchedSystem Unit Unit).init unwatched :=
    ⟨fun _ _ => rfl, fun _ => rfl, fun _ _ => rfl⟩
  have adds : (watchedSystem Unit Unit).step unwatched (.addIo () () true .ok .ok true)
      (Call.run unwatched (.addIo () () true .ok .ok true)) := rfl
  have removes : (watchedSystem Unit Unit).step _ (.removeIo () 5 true) removed := rfl
  exact reachable_next (reachable_next (.start begins) adds) removes

/-- The second `add_io` returns true, and the map has no entry. -/
theorem added_again_missing : Reachable (watchedSystem Unit Unit) removed ∧
    removed.procs.ioMap () (removed.procs.ios ()).fd = none ∧
    ¬Truthful () () removed (removed.addIo () () true .ok .ok true) := by
  refine ⟨removed_reachable, rfl, ?_⟩
  intro told
  have mapped := (told.1 rfl).mapped
  cases mapped

/-- A report of `EBADF` for the same acceptor takes its manager from it. -/
theorem answer_tells_truth_removed :
    Truthful () () removed (removed.addIo () () true .ebadf .ok true) ↔
      Honest removed () () true .ebadf .ok :=
  answer_tells_truth removed () () true .ebadf .ok true rfl

end Answers

end Npoller.AddIoAnswer
