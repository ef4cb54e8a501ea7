import Mathlib.Logic.Function.Basic
import Npoller.StepSystem
import Npoller.TcpSetters

/-!
The `io_map` of any number of event processors and the `manager` pointers of the
`io` instances in them. `add_io` and `remove_io` of `event_processor.cpp`, `close`
and `mark_invalid` of `io` and of `tcp`, each with the order of its own updates.
-/

namespace Npoller.IoMap

open StepSystem TcpSetters

variable {π ι : Type*} [DecidableEq π] [DecidableEq ι]

/-- `tcp_acceptor` overrides none of the functions here. -/
inductive Kind where
  | plain
  | tcp
  deriving DecidableEq, Repr

structure Io (π : Type*) where
  kind : Kind
  fd : Int
  valid : Bool
  readable : Bool
  writable : Bool
  status : TcpStatus
  supportEpollrdhup : Bool
  manager : Option π

def Io.IsOpen (io : Io π) : Prop :=
  match io.kind with
  | .plain => io.valid = true
  | .tcp => ¬Final io.status

def Io.validSafe (io : Io π) : Bool :=
  match io.kind with
  | .plain => io.valid
  | .tcp => io.status ≠ .invalid

structure Processors (π ι : Type*) where
  epfd : π → Int
  ioMap : π → Int → Option ι
  ios : ι → Io π

inductive CtlResult where
  | ok
  | ebadf
  | einval
  | eexist
  | eperm
  | failed
  deriving DecidableEq, Repr

inductive Result where
  | returned (value : Bool)
  | thrown (what : String)
  deriving DecidableEq, Repr

def Processors.setIo (s : Processors π ι) (x : ι) (io : Io π) : Processors π ι :=
  { s with ios := Function.update s.ios x io }

/-- `bool remove_io(int fd)`; `deleted` is what `EPOLL_CTL_DEL` reports. -/
def Processors.removeIo (s : Processors π ι) (p : π) (fd : Int) (deleted : Bool) :
    Result × Processors π ι :=
  if (s.ioMap p fd).isNone then (.returned false, s)
  else (.returned deleted,
    { s with ioMap := fun q e => if q = p ∧ e = fd then none else s.ioMap q e })

def Processors.updateManager (s : Processors π ι) (x : ι) (manager : Option π) : Processors π ι :=
  let s := match (s.ios x).manager with
    | some p => (s.removeIo p (s.ios x).fd true).2
    | none => s
  s.setIo x { s.ios x with manager := manager }

/-- `mark_invalid`: the one of `tcp` changes the status and nothing else. -/
def Processors.markInvalid (s : Processors π ι) (x : ι) : Processors π ι :=
  match (s.ios x).kind with
  | .plain =>
      let s := s.updateManager x none
      s.setIo x { s.ios x with valid := false, readable := false, writable := false }
  | .tcp => s.setIo x { s.ios x with status := .invalid }

/-- `tcp::close` leaves its manager by itself. -/
def Processors.leaveManager (s : Processors π ι) (x : ι) : Processors π ι :=
  match (s.ios x).manager with
  | some p =>
      let s := (s.removeIo p (s.ios x).fd true).2
      s.setIo x { s.ios x with manager := none }
  | none => s

/-- `close`: the one of `io` leaves the manager and its map alone. -/
def Processors.close (s : Processors π ι) (x : ι) : Processors π ι :=
  match (s.ios x).kind with
  | .plain => if (s.ios x).valid then s.setIo x { s.ios x with valid := false } else s
  | .tcp =>
      let s := s.leaveManager x
      if Final (s.ios x).status then s else s.setIo x { s.ios x with status := .closed }

/-- `get_event` as far as it decides or changes anything here. -/
def Processors.getEvent (s : Processors π ι) (x : ι) : Bool × Processors π ι :=
  match (s.ios x).kind with
  | .plain => ((s.ios x).readable || (s.ios x).writable, s)
  | .tcp =>
      match (s.ios x).status with
      | .invalid => (false, s)
      | .closed => (false, s.close x)
      | .peerShutdownWrite => (true, s.setIo x { s.ios x with supportEpollrdhup := false })
      | _ => (true, s)

/-- The part of `add_io` from its label `retry` to a result that is not retried. -/
def Processors.epollCtlAdd (s : Processors π ι) (x : ι) (first second : CtlResult) :
    Option CtlResult × Processors π ι :=
  match s.getEvent x with
  | (false, s) => (none, s)
  | (true, s) =>
      if first = .einval ∧ (s.ios x).supportEpollrdhup then
        match (s.setIo x { s.ios x with supportEpollrdhup := false }).getEvent x with
        | (false, s) => (none, s)
        | (true, s) => (some second, s)
      else (some first, s)

/-- The first tests of `add_io`; `running` is the status of the processor. -/
def Processors.admits (s : Processors π ι) (p : π) (x : ι) (running : Bool) : Bool :=
  running && (s.ios x).validSafe && decide ((s.ios x).fd ≠ s.epfd p)

def Processors.added (s : Processors π ι) (p : π) (x : ι) : CtlResult → Result × Processors π ι
  | .ok =>
      let fd := (s.ios x).fd
      let s := { s with ioMap := fun q e =>
        if q = p ∧ e = fd ∧ s.ioMap p fd = none then some x else s.ioMap q e }
      (.returned true, s.updateManager x (some p))
  | .ebadf => (.returned false, s.markInvalid x)
  | .einval => (.returned false, s)
  | .eexist => (.thrown "Try to add a fd which epoll fd is listening!", s)
  | .eperm => (.returned true, s)
  | .failed => (.returned false, s)

def Processors.addIo (s : Processors π ι) (p : π) (x : ι) (running : Bool)
    (first second : CtlResult) : Result × Processors π ι :=
  if s.admits p x running = false then (.returned false, s)
  else if (s.ioMap p (s.ios x).fd).isSome then
    (.thrown ("Try to add a fd " ++ toString (s.ios x).fd ++ " which in epoll fd 's map!"), s)
  else
    match s.epollCtlAdd x first second with
    | (none, s) => (.returned false, s)
    | (some result, s) => s.added p x result

inductive Op (π ι : Type*) where
  | addIo (p : π) (x : ι) (running : Bool) (first second : CtlResult)
  | removeIo (p : π) (fd : Int) (deleted : Bool)
  | close (x : ι)
  | markInvalid (x : ι)

def Op.run (s : Processors π ι) : Op π ι → Processors π ι
  | .addIo p x running first second => (s.addIo p x running first second).2
  | .removeIo p fd deleted => (s.removeIo p fd deleted).2
  | .close x => s.close x
  | .markInvalid x => s.markInvalid x

/-- Nothing is registered at first; the instances are any. -/
def ioMapSystem (π ι : Type*) [DecidableEq π] [DecidableEq ι] : System (Processors π ι) (Op π ι) where
  init s := (∀ p fd, s.ioMap p fd = none) ∧ ∀ x, (s.ios x).manager = none
  step before op after := op.run before = after

/-- The operations that forget one of the three are not applied to a registered
instance. -/
def Keeps (s : Processors π ι) : Op π ι → Prop
  | .addIo p x running first second =>
      s.admits p x running = true → s.ioMap p (s.ios x).fd = none →
      (s.epollCtlAdd x first second).1 = some .ebadf → (s.ios x).kind = .tcp →
      (s.ios x).manager = none
  | .removeIo p fd _ => s.ioMap p fd = none
  | .close x => (s.ios x).kind = .plain → (s.ios x).manager = none
  | .markInvalid x => (s.ios x).kind = .tcp → (s.ios x).manager = none

/-- A manager is the processor that has the instance under its descriptor; nobody is
in two maps; and what is in a map is open. -/
def IoMapAgrees (s : Processors π ι) : Prop :=
  (∀ x p, (s.ios x).manager = some p ↔ s.ioMap p (s.ios x).fd = some x) ∧
  (∀ x p q d e, s.ioMap p d = some x → s.ioMap q e = some x → p = q) ∧
  ∀ p d x, s.ioMap p d = some x → (s.ios x).IsOpen

structure Agree (s : Processors π ι) : Prop where
  managed : ∀ x p, (s.ios x).manager = some p ↔ s.ioMap p (s.ios x).fd = some x
  keyed : ∀ p fd x, s.ioMap p fd = some x → (s.ios x).fd = fd
  opened : ∀ p fd x, s.ioMap p fd = some x → (s.ios x).IsOpen

variable {s after : Processors π ι} {p : π} {x : ι}

omit [DecidableEq π] in
@[simp] theorem set_io_map (io : Io π) : (s.setIo x io).ioMap = s.ioMap := rfl

omit [DecidableEq π] in
@[simp] theorem set_io_self (io : Io π) : (s.setIo x io).ios x = io := Function.update_self ..

omit [DecidableEq π] in
theorem set_io_other {y : ι} (io : Io π) (apart : y ≠ x) : (s.setIo x io).ios y = s.ios y :=
  Function.update_of_ne apart _ _

omit [DecidableEq ι] in
theorem remove_io_map (fd : Int) (deleted : Bool) (q : π) (e : Int) :
    (s.removeIo p fd deleted).2.ioMap q e = if q = p ∧ e = fd then none else s.ioMap q e := by
  unfold Processors.removeIo
  split
  · rename_i absent
    split
    · rename_i same
      rw [same.1, same.2]
      exact Option.isNone_iff_eq_none.mp absent
    · rfl
  · rfl

omit [DecidableEq ι] in
@[simp] theorem remove_io_ios (fd : Int) (deleted : Bool) :
    (s.removeIo p fd deleted).2.ios = s.ios := by
  unfold Processors.removeIo
  split <;> rfl

section Changes

omit [DecidableEq π] [DecidableEq ι] in
theorem agree_frame (agree : Agree s) (maps : after.ioMap = s.ioMap)
    (same : ∀ y, (after.ios y).fd = (s.ios y).fd ∧ (after.ios y).manager = (s.ios y).manager)
    (opens : ∀ y q, (s.ios y).manager = some q → (s.ios y).IsOpen → (after.ios y).IsOpen) :
    Agree after := by
  refine ⟨?_, ?_, ?_⟩
  · intro y q
    rw [maps, (same y).1, (same y).2]
    exact agree.managed y q
  · intro q fd y listed
    rw [maps] at listed
    rw [(same y).1]
    exact agree.keyed q fd y listed
  · intro q fd y listed
    rw [maps] at listed
    have managed : (s.ios y).manager = some q := by
      rw [agree.managed, agree.keyed q fd y listed]
      exact listed
    exact opens y q managed (agree.opened q fd y listed)

/-- An operation that takes one instance from its manager to `next`, if any. -/
structure Rebound (s : Processors π ι) (x : ι) (next : Option π) (after : Processors π ι) :
    Prop where
  others : ∀ y, y ≠ x → after.ios y = s.ios y
  fd : (after.ios x).fd = (s.ios x).fd
  manager : (after.ios x).manager = next
  maps : ∀ q e, after.ioMap q e =
    if e = (s.ios x).fd ∧ next = some q then some x
    else if e = (s.ios x).fd ∧ (s.ios x).manager = some q then none
    else s.ioMap q e

omit [DecidableEq ι] in
theorem rebound_listed {next : Option π} {q : π} {e : Int} {y : ι} (agree : Agree s)
    (rebound : Rebound s x next after) (listed : after.ioMap q e = some y) :
    (y = x ∧ e = (s.ios x).fd ∧ next = some q) ∨ (y ≠ x ∧ s.ioMap q e = some y) := by
  rw [rebound.maps] at listed
  split at listed
  · rename_i new
    cases listed
    exact .inl ⟨rfl, new⟩
  · split at listed
    · cases listed
    · rename_i stays
      refine .inr ⟨?_, listed⟩
      rintro rfl
      have key := agree.keyed q e y listed
      exact stays ⟨key.symm, (agree.managed y q).mpr (key ▸ listed)⟩

theorem rebound_managed {next : Option π} (agree : Agree s) (rebound : Rebound s x next after)
    (free : ∀ q, next = some q → s.ioMap q (s.ios x).fd = none) (y : ι) (q : π) :
    (after.ios y).manager = some q ↔ after.ioMap q (after.ios y).fd = some y := by
  by_cases same : y = x
  · subst same
    rw [rebound.manager, rebound.fd, rebound.maps]
    by_cases new : next = some q
    · simp [new]
    · by_cases old : (s.ios y).manager = some q
      · simp [new, old]
      · simpa [new, old] using mt (agree.managed y q).mpr old
  · rw [rebound.others y same, agree.managed, rebound.maps]
    by_cases clash : (s.ios y).fd = (s.ios x).fd ∧ next = some q
    · have none_ := free q clash.2
      rw [if_pos clash, clash.1, none_]
      simp [Ne.symm same]
    · rw [if_neg clash]
      -- The entry that goes is the one of `x`.
      by_cases old : (s.ios y).fd = (s.ios x).fd ∧ (s.ios x).manager = some q
      · have listed := (agree.managed x q).mp old.2
        rw [if_pos old, old.1, listed]
        simp [Ne.symm same]
      · rw [if_neg old]

theorem agree_rebound {next : Option π} (agree : Agree s) (rebound : Rebound s x next after)
    (free : ∀ q, next = some q → s.ioMap q (s.ios x).fd = none)
    (opens : next ≠ none → (after.ios x).IsOpen) : Agree after := by
  refine ⟨rebound_managed agree rebound free, ?_, ?_⟩
  · intro q e y listed
    rcases rebound_listed agree rebound listed with ⟨rfl, here, _⟩ | ⟨apart, before⟩
    · rw [rebound.fd, here]
    · rw [rebound.others y apart]
      exact agree.keyed q e y before
  · intro q e y listed
    rcases rebound_listed agree rebound listed with ⟨rfl, _, new⟩ | ⟨apart, before⟩
    · apply opens
      rw [new]
      exact Option.some_ne_none q
    · rw [rebound.others y apart]
      exact agree.opened q e y before

theorem update_manager_rebound (x : ι) : Rebound s x none (s.updateManager x none) := by
  unfold Processors.updateManager
  cases managed : (s.ios x).manager with
  | none =>
      refine ⟨fun y apart => set_io_other _ apart, by simp, by simp, ?_⟩
      intro q e
      simp [managed]
  | some q =>
      refine ⟨fun y apart => by simp [set_io_other, apart], by simp, by simp, ?_⟩
      intro r e
      simp only [set_io_map, remove_io_map, managed, reduceCtorEq, and_false, if_false,
        Option.some.injEq]
      by_cases here : r = q ∧ e = (s.ios x).fd
      · rw [if_pos here, if_pos ⟨here.2, here.1.symm⟩]
      · rw [if_neg here, if_neg (fun other => here ⟨other.2.symm, other.1⟩)]

omit [DecidableEq π] in
theorem agree_set {io : Io π} (agree : Agree s) (fd : io.fd = (s.ios x).fd)
    (manager : io.manager = (s.ios x).manager)
    (opens : ∀ q, (s.ios x).manager = some q → (s.ios x).IsOpen → io.IsOpen) :
    Agree (s.setIo x io) := by
  refine agree_frame agree rfl ?_ ?_
  · intro y
    by_cases same : y = x
    · rw [same, set_io_self]
      exact ⟨fd, manager⟩
    · rw [set_io_other io same]
      exact ⟨rfl, rfl⟩
  · intro y q managed before
    by_cases same : y = x
    · subst same
      rw [set_io_self]
      exact opens q managed before
    · rwa [set_io_other io same]

omit [DecidableEq π] in
theorem agree_flag (agree : Agree s) (flag : Bool) :
    Agree (s.setIo x { s.ios x with supportEpollrdhup := flag }) := by
  refine agree_set agree ?_ ?_ ?_
  · rfl
  · rfl
  · intro q _ opened
    exact opened

end Changes

section Operations

theorem mark_invalid_agrees (agree : Agree s)
    (keeps : (s.ios x).kind = .tcp → (s.ios x).manager = none) : Agree (s.markInvalid x) := by
  unfold Processors.markInvalid
  split
  · have rebound := update_manager_rebound (s := s) x
    have left : Agree (s.updateManager x none) := agree_rebound agree rebound nofun nofun
    refine agree_set left ?_ ?_ ?_
    · rfl
    · rfl
    intro q managed
    rw [rebound.manager] at managed
    cases managed
  · rename_i kind
    refine agree_set agree ?_ ?_ ?_
    · rfl
    · rfl
    intro q managed
    rw [keeps kind] at managed
    cases managed

theorem leave_manager_rebound (x : ι) : Rebound s x none (s.leaveManager x) := by
  have rebound := update_manager_rebound (s := s) x
  unfold Processors.updateManager at rebound
  unfold Processors.leaveManager
  cases managed : (s.ios x).manager with
  | none =>
      refine ⟨fun _ _ => rfl, rfl, managed, ?_⟩
      intro q e
      simp [managed]
  | some p =>
      rw [managed] at rebound
      exact rebound

theorem close_agrees (agree : Agree s)
    (keeps : (s.ios x).kind = .plain → (s.ios x).manager = none) : Agree (s.close x) := by
  unfold Processors.close
  split
  · rename_i kind
    split
    · refine agree_set agree ?_ ?_ ?_
      · rfl
      · rfl
      intro q managed
      rw [keeps kind] at managed
      cases managed
    · exact agree
  · have rebound := leave_manager_rebound (s := s) x
    have left : Agree (s.leaveManager x) := agree_rebound agree rebound nofun nofun
    dsimp only
    split
    · exact left
    · refine agree_set left ?_ ?_ ?_
      · rfl
      · rfl
      intro q managed
      rw [rebound.manager] at managed
      cases managed

theorem get_event_true {s' : Processors π ι} (got : s.getEvent x = (true, s')) :
    (∃ flag, s' = s.setIo x { s.ios x with supportEpollrdhup := flag }) ∧
      ((s.ios x).kind = .tcp → ¬Final (s.ios x).status) := by
  have same : s = s.setIo x { s.ios x with supportEpollrdhup := (s.ios x).supportEpollrdhup } := by
    rw [Processors.setIo, Function.update_eq_self]
  unfold Processors.getEvent at got
  split at got
  · rename_i kind
    obtain ⟨_, rfl⟩ := Prod.mk.inj got
    exact ⟨⟨_, same⟩, by simp [kind]⟩
  · split at got
    · cases got
    · cases got
    · rename_i status
      cases got
      exact ⟨⟨false, rfl⟩, fun _ => by simp [Final, status]⟩
    · rename_i invalid closed _
      cases got
      exact ⟨⟨_, same⟩, fun _ final => final.elim closed invalid⟩

theorem get_event_false {s' : Processors π ι} (agree : Agree s) (got : s.getEvent x = (false, s')) :
    Agree s' := by
  unfold Processors.getEvent at got
  split at got
  · obtain ⟨_, rfl⟩ := Prod.mk.inj got
    exact agree
  · rename_i kind
    split at got
    · cases got
      exact agree
    · cases got
      exact close_agrees agree (by simp [kind])
    · cases got
    · cases got

theorem epoll_ctl_reached {s' : Processors π ι} {first second result : CtlResult}
    (valid : (s.ios x).validSafe = true)
    (reached : s.epollCtlAdd x first second = (some result, s')) :
    ∃ flag, s' = s.setIo x { s.ios x with supportEpollrdhup := flag } ∧ (s'.ios x).IsOpen := by
  have opens : ((s.ios x).kind = .tcp → ¬Final (s.ios x).status) →
      ∀ flag, Io.IsOpen { s.ios x with supportEpollrdhup := flag } := by
    intro open_ flag
    unfold Io.IsOpen
    unfold Io.validSafe at valid
    dsimp only
    cases kind : (s.ios x).kind with
    | plain =>
        rw [kind] at valid
        exact valid
    | tcp => exact open_ kind
  unfold Processors.epollCtlAdd at reached
  split at reached
  · cases reached
  · rename_i got
    obtain ⟨⟨flag, rfl⟩, open_⟩ := get_event_true got
    split at reached
    · split at reached
      · cases reached
      · rename_i gotAgain
        obtain ⟨⟨again, rfl⟩, _⟩ := get_event_true gotAgain
        obtain ⟨_, rfl⟩ := Prod.mk.inj reached
        refine ⟨again, ?_, ?_⟩
        · simp [Processors.setIo]
        · rw [set_io_self, set_io_self, set_io_self]
          exact opens open_ again
    · obtain ⟨_, rfl⟩ := Prod.mk.inj reached
      refine ⟨flag, rfl, ?_⟩
      rw [set_io_self]
      exact opens open_ flag

theorem epoll_ctl_missed {s' : Processors π ι} {first second : CtlResult} (agree : Agree s)
    (missed : s.epollCtlAdd x first second = (none, s')) : Agree s' := by
  unfold Processors.epollCtlAdd at missed
  split at missed
  · rename_i got
    obtain ⟨_, rfl⟩ := Prod.mk.inj missed
    exact get_event_false agree got
  · rename_i got
    obtain ⟨⟨flag, rfl⟩, _⟩ := get_event_true got
    split at missed
    · split at missed
      · rename_i gotAgain
        obtain ⟨_, rfl⟩ := Prod.mk.inj missed
        exact get_event_false (agree_flag (agree_flag agree flag) false) gotAgain
      · cases missed
    · cases missed

theorem registered_rebound (agree : Agree s) (free : s.ioMap p (s.ios x).fd = none) :
    Rebound s x (some p) (s.added p x .ok).2 := by
  unfold Processors.added Processors.updateManager
  dsimp only
  cases managed : (s.ios x).manager with
  | none =>
      refine ⟨fun y apart => set_io_other _ apart, by simp, by simp, ?_⟩
      intro q e
      simp [managed, free, and_comm, eq_comm]
  | some m =>
      refine ⟨fun y apart => by simp [set_io_other, apart], by simp, by simp, ?_⟩
      intro q e
      have listed := (agree.managed x m).mp managed
      -- The entry that `update_manager` removes is not the one that `add_io` has just put in.
      have apart : p ≠ m := by
        rintro rfl
        rw [free] at listed
        cases listed
      simp only [set_io_map, remove_io_map, free, and_true, managed, Option.some.injEq]
      by_cases here : e = (s.ios x).fd
      · by_cases new : q = p
        · simp [here, new, apart]
        · simp [here, new, Ne.symm new, eq_comm]
      · simp [here]

theorem added_agrees {result : CtlResult} (agree : Agree s) (free : s.ioMap p (s.ios x).fd = none)
    (opened : (s.ios x).IsOpen)
    (keeps : result = .ebadf → (s.ios x).kind = .tcp → (s.ios x).manager = none) :
    Agree (s.added p x result).2 := by
  cases result with
  | ok =>
      have rebound := registered_rebound agree free
      refine agree_rebound agree rebound ?_ ?_
      · rintro q ⟨rfl⟩
        exact free
      · intro _
        unfold Processors.added Processors.updateManager
        dsimp only
        rw [set_io_self]
        cases (s.ios x).manager with
        | none => exact opened
        | some m =>
            simp only [remove_io_ios]
            exact opened
  | ebadf => exact mark_invalid_agrees agree (keeps rfl)
  | einval | eexist | eperm | failed => exact agree

omit [DecidableEq π] [DecidableEq ι] in
theorem admits_valid {running : Bool} (admitted : s.admits p x running = true) :
    (s.ios x).validSafe = true := by
  simp only [Processors.admits, Bool.and_eq_true] at admitted
  exact admitted.1.2

theorem add_io_agrees {running : Bool} {first second : CtlResult} (agree : Agree s)
    (keeps : Keeps s (.addIo p x running first second)) :
    Agree (s.addIo p x running first second).2 := by
  unfold Processors.addIo
  split
  · exact agree
  · rename_i admitted
    rw [Bool.not_eq_false] at admitted
    split
    · exact agree
    · rename_i absent
      rw [Option.not_isSome_iff_eq_none] at absent
      split
      · rename_i missed
        exact epoll_ctl_missed agree missed
      · rename_i result reached
        obtain ⟨flag, rfl, opened⟩ := epoll_ctl_reached (admits_valid admitted) reached
        refine added_agrees (agree_flag agree flag) ?_ opened ?_
        · simpa using absent
        · intro rejected kind
          rw [set_io_self] at kind ⊢
          exact keeps admitted absent (by rw [reached, rejected]) kind

omit [DecidableEq ι] in
theorem remove_io_agrees {fd : Int} {deleted : Bool} (agree : Agree s)
    (absent : s.ioMap p fd = none) : Agree (s.removeIo p fd deleted).2 := by
  rw [Processors.removeIo, if_pos (Option.isNone_iff_eq_none.mpr absent)]
  exact agree

theorem run_agrees {op : Op π ι} (agree : Agree s) (keeps : Keeps s op) : Agree (op.run s) := by
  cases op with
  | addIo p x running first second => exact add_io_agrees agree keeps
  | removeIo p fd deleted => exact remove_io_agrees agree keeps
  | close x => exact close_agrees agree keeps
  | markInvalid x => exact mark_invalid_agrees agree keeps

end Operations

section Exactness

omit [DecidableEq ι] in
theorem remove_io_needs {fd : Int} {deleted : Bool} (agree : Agree s)
    (after : IoMapAgrees (s.removeIo p fd deleted).2) : s.ioMap p fd = none := by
  by_contra listed
  obtain ⟨y, listed⟩ := Option.ne_none_iff_exists'.mp listed
  have key := agree.keyed p fd y listed
  subst key
  have managed := (agree.managed y p).mpr listed
  have still := after.1 y p
  rw [remove_io_ios, remove_io_map, managed] at still
  simp at still

omit [DecidableEq π] in
theorem set_needs {io : Io π} (agree : Agree s) (shut : ¬io.IsOpen)
    (after : IoMapAgrees (s.setIo x io)) : (s.ios x).manager = none := by
  by_contra managed
  obtain ⟨q, managed⟩ := Option.ne_none_iff_exists'.mp managed
  have listed := (agree.managed x q).mp managed
  have opened := after.2.2 q (s.ios x).fd x listed
  rw [set_io_self] at opened
  exact shut opened

theorem close_needs (agree : Agree s) (after : IoMapAgrees (s.close x))
    (kind : (s.ios x).kind = .plain) : (s.ios x).manager = none := by
  unfold Processors.close at after
  rw [kind] at after
  dsimp only at after
  split at after
  · refine set_needs agree ?_ after
    simp [Io.IsOpen, kind]
  · rename_i shut
    by_contra managed
    obtain ⟨q, managed⟩ := Option.ne_none_iff_exists'.mp managed
    have opened := agree.opened q _ x ((agree.managed x q).mp managed)
    rw [Io.IsOpen, kind] at opened
    exact shut opened

theorem mark_invalid_needs (agree : Agree s) (after : IoMapAgrees (s.markInvalid x))
    (kind : (s.ios x).kind = .tcp) : (s.ios x).manager = none := by
  unfold Processors.markInvalid at after
  rw [kind] at after
  refine set_needs agree ?_ after
  simp [Io.IsOpen, kind, Final]

theorem add_io_needs {running : Bool} {first second : CtlResult} (agree : Agree s)
    (after : IoMapAgrees (s.addIo p x running first second).2) :
    Keeps s (.addIo p x running first second) := by
  intro admitted absent rejected kind
  unfold Processors.addIo at after
  rw [if_neg (by simp [admitted]), if_neg (by simp [absent])] at after
  split at after
  · rename_i missed
    rw [missed] at rejected
    cases rejected
  · rename_i result reached
    rw [reached] at rejected
    cases rejected
    obtain ⟨flag, rfl, _⟩ := epoll_ctl_reached (admits_valid admitted) reached
    have needs := mark_invalid_needs (agree_flag agree flag) after
    rw [set_io_self] at needs
    exact needs kind

end Exactness

section Runs

omit [DecidableEq π] [DecidableEq ι] in
theorem agree_sound (agree : Agree s) : IoMapAgrees s := by
  refine ⟨agree.managed, ?_, agree.opened⟩
  intro x p q d e first second
  have mine := agree.keyed p d x first
  have other := agree.keyed q e x second
  subst mine
  subst other
  rw [← agree.managed] at first second
  exact Option.some.inj (first.symm.trans second)

/-- In every run whose operations all keep the three together, they agree in every
state, and an operation breaks this exactly when it is not one of those. -/
theorem io_map_agrees (reached : ReachableBy (ioMapSystem π ι) Keeps s) :
    IoMapAgrees s ∧ ∀ op : Op π ι, IoMapAgrees (op.run s) ↔ Keeps s op := by
  have starts : ∀ state, (ioMapSystem π ι).init state → Agree state := by
    rintro state ⟨empty, free⟩
    refine ⟨?_, ?_, ?_⟩
    · intro x p
      simp [empty, free]
    · intro p fd x listed
      rw [empty] at listed
      cases listed
    · intro p fd x listed
      rw [empty] at listed
      cases listed
  have agree : Agree s := by
    apply invariant starts _ reached
    rintro before op after agree keeps rfl
    exact run_agrees agree keeps
  refine ⟨agree_sound agree, ?_⟩
  intro op
  refine ⟨?_, fun keeps => agree_sound (run_agrees agree keeps)⟩
  intro after
  cases op with
  | addIo p x running first second => exact add_io_needs agree after
  | removeIo p fd deleted => exact remove_io_needs agree after
  | close x => exact close_needs agree after
  | markInvalid x => exact mark_invalid_needs agree after

/-- A listening socket, which is a plain `io`. -/
def acceptor : Io Unit := ⟨.plain, 5, true, true, false, .initializing, false, none⟩

def idle : Processors Unit Unit := ⟨fun _ => 3, fun _ _ => none, fun _ => acceptor⟩

def registered : Processors Unit Unit := Op.run idle (.addIo () () true .ok .ok)

theorem idle_init : (ioMapSystem Unit Unit).init idle := ⟨fun _ _ => rfl, fun _ => rfl⟩

theorem registered_step :
    (ioMapSystem Unit Unit).step idle (.addIo () () true .ok .ok) registered := rfl

/-- A registered acceptor is closed: its entry and its manager stay. -/
theorem closed_entry_stays :
    ¬∀ s : Processors Unit Unit, Reachable (ioMapSystem Unit Unit) s → IoMapAgrees s := by
  intro agrees
  have closes : (ioMapSystem Unit Unit).step registered (.close ())
      (Op.run registered (.close ())) := rfl
  have added := reachable_next (.start idle_init) registered_step
  have closed := agrees _ (reachable_next added closes)
  have opened := closed.2.2 () 5 () rfl
  cases opened

/-- The acceptor is registered and then invalid. -/
theorem io_map_agrees_sample :
    IoMapAgrees (Op.run registered (.markInvalid ())) ∧
    ∀ op : Op Unit Unit, IoMapAgrees (op.run (Op.run registered (.markInvalid ()))) ↔
      Keeps (Op.run registered (.markInvalid ())) op :=
  have adds : Keeps idle (.addIo () () true .ok .ok) := fun _ _ => nofun
  have marks : Keeps registered (.markInvalid ()) := nofun
  have invalid : (ioMapSystem Unit Unit).step registered (.markInvalid ())
      (Op.run registered (.markInvalid ())) := rfl
  io_map_agrees (.next (.next (.start idle_init) adds registered_step) marks invalid)

end Runs

end Npoller.IoMap
