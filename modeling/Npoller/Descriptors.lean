import Npoller.IoCreation

/-!
The io instances of a process from their constructors to their destructors, and the
descriptors that are open. The kernel hands out descriptors that are not open, and
`epoll_ctl` reports EBADF for those alone. `mark_invalid` comes at any time, as in a
`start_accept` whose `bind` fails. An instance is destroyed when the last handle goes,
so never while an `io_map` has one. Where `add_io` throws the program ends.
-/

namespace Npoller.Descriptors

open StepSystem TcpSetters IoMap AddIoAnswer IoCreation

variable {π ι : Type*} [DecidableEq π] [DecidableEq ι]

/-- `abandoned` collects the descriptors that a creation has left open without handing an
instance out, `orphaned` those that `mark_invalid` has left open in an instance that will
not close them, and `outside` those that no instance has. -/
structure Life (π ι : Type*) where
  process : Process π ι
  live : ι → Bool
  abandoned : Int → Bool
  orphaned : Int → Bool
  outside : Int → Bool

def Life.io (s : Life π ι) (x : ι) : Io π := s.process.io x

/-- `close` of `io` and of `tcp`, where `::close` is called on an open instance. -/
def closeIo (s : Process π ι) (x : ι) (deleted : Bool) : Process π ι :=
  { watched := s.watched.close x deleted
    opened := fun fd =>
      if (s.io x).IsOpen ∧ fd = (s.io x).fd then false else s.opened fd }

def Life.created (s : Life π ι) (x : ι) (fd : Int) (answer : Outcome × Process π ι) : Life π ι :=
  { s with
    process := answer.2
    live := fun y => if y = x then decide (answer.1 = .made) else s.live y
    abandoned := fun e => s.abandoned e ||
      (decide (answer.1 = .refused ∧ e = fd) && answer.2.opened e) }

def openFd (s : Process π ι) (fd : Int) : Process π ι :=
  { s with opened := fun e => if e = fd ∧ 0 ≤ e then true else s.opened e }

inductive LifeOp (π ι : Type*) where
  | create (p : π) (x : ι) (io : Io π) (running : Bool) (first second : CtlResult) (deleted : Bool)
  | createAcceptor (p : π) (x : ι) (fd : Int) (fcntl binds listens running : Bool)
      (first second : CtlResult) (deleted : Bool)
  | accept (x : ι) (fd : Int)
  | addIo (p : π) (x : ι) (running : Bool) (first second : CtlResult) (deleted : Bool)
  | removeIo (p : π) (fd : Int) (deleted : Bool)
  | close (x : ι) (deleted : Bool)
  | markInvalid (x : ι) (deleted : Bool)
  | change (x : ι) (readable writable : Bool) (status : TcpStatus) (support : Bool)
  | destroy (x : ι)

/-- The tcp that `tcp_acceptor::direct_read` makes. -/
def acceptedTcp (fd : Int) : Io π := newIo .tcp fd true true true true true .connected

def LifeOp.run (s : Life π ι) : LifeOp π ι → Life π ι
  | .create p x io running first second deleted =>
      s.created x io.fd
        ((openFd s.process io.fd).createIo p x io running first second deleted)
  | .createAcceptor p x fd fcntl binds listens running first second deleted =>
      s.created x fd ((openFd s.process fd).createAcceptor p x (newAcceptor fd fcntl) binds
        listens running first second deleted)
  | .accept x fd =>
      { s with
        process := (openFd s.process fd).setIo x (acceptedTcp fd)
        live := fun y => if y = x then true else s.live y }
  | .addIo p x running first second deleted =>
      { s with process := { s.process with
        watched := (s.process.watched.addIo p x running first second deleted).2 } }
  | .removeIo p fd deleted =>
      { s with process := { s.process with
        watched := (s.process.watched.removeIo p fd deleted).2 } }
  | .close x deleted => { s with process := closeIo s.process x deleted }
  | .markInvalid x deleted =>
      { s with
        process := { s.process with watched := s.process.watched.markInvalid x deleted }
        orphaned := fun e => s.orphaned e || decide ((s.io x).kind = .plain ∧
          (s.io x).valid = true ∧ s.process.opened e = true ∧ e = (s.io x).fd) }
  | .change x readable writable status support =>
      { s with process := (s.process.setIo x
        { s.io x with readable, writable, status, supportEpollrdhup := support }) }
  | .destroy x =>
      { s with process := s.process.destroy x, live := fun y => if y = x then false else s.live y }

/-- A new instance, and what the kernel may return for it. -/
def Fresh (s : Life π ι) (x : ι) (fd : Int) : Prop :=
  s.live x = false ∧ (0 ≤ fd → s.process.opened fd = false)

/-- What the constructors make: a manager comes later, and a tcp is valid as soon as it
has a descriptor. -/
def Constructed (io : Io π) : Prop :=
  io.manager = none ∧ (io.kind = .tcp → 0 ≤ io.fd → io.valid = true)

/-- What can happen: see the header. -/
def Possible (s : Life π ι) : LifeOp π ι → Prop
  | .create _ x io _ first second _ =>
      Fresh s x io.fd ∧ Constructed io ∧ first ≠ .ebadf ∧ second ≠ .ebadf
  | .createAcceptor _ x fd _ _ _ _ first second _ =>
      Fresh s x fd ∧ first ≠ .ebadf ∧ second ≠ .ebadf
  | .accept x fd => Fresh s x fd
  | .addIo _ x _ first second _ =>
      s.live x = true ∧ (first = .ebadf ∨ second = .ebadf → s.process.opened (s.io x).fd = false)
  | .removeIo _ _ _ => True
  | .close x _ | .change x _ _ _ _ | .markInvalid x _ => s.live x = true
  | .destroy x => s.live x = true ∧ ∀ p fd, s.process.watched.procs.ioMap p fd ≠ some x

def Survives (s : Life π ι) : LifeOp π ι → Prop
  | .create p x io running first second deleted => ∀ what,
      ((openFd s.process io.fd).createIo p x io running first second deleted).1 ≠ .terminated what
  | .createAcceptor p x fd fcntl binds listens running first second deleted => ∀ what,
      ((openFd s.process fd).createAcceptor p x (newAcceptor fd fcntl) binds listens running first
        second deleted).1 ≠ .terminated what
  | .addIo p x running first second deleted => ∀ what,
      (s.process.watched.addIo p x running first second deleted).1 ≠ .thrown what
  | _ => True

def lifeSystem (π ι : Type*) [DecidableEq π] [DecidableEq ι] : System (Life π ι) (LifeOp π ι) where
  init s := (∀ x, s.live x = false) ∧
    (∀ fd, s.abandoned fd = false ∧ s.orphaned fd = false) ∧ s.process.opened = s.outside ∧
    ∀ p fd, s.process.watched.procs.ioMap p fd = none
  step before op after := (Possible before op ∧ Survives before op) ∧ op.run before = after

section Frames
variable {s middle after : Watched π ι} {p : π} {x : ι}

/-- What no operation on the registries changes, `io::valid` but for two. -/
structure Same (io other : Io π) : Prop where
  fd : other.fd = io.fd
  kind : other.kind = io.kind
  valid : other.valid = io.valid

def AllSame (s after : Watched π ι) : Prop := ∀ y, Same (s.procs.ios y) (after.procs.ios y)

omit [DecidableEq π] [DecidableEq ι] in
theorem all_same_refl (s : Watched π ι) : AllSame s s := fun _ => ⟨rfl, rfl, rfl⟩

omit [DecidableEq π] [DecidableEq ι] in
theorem all_same_trans (first : AllSame s middle) (second : AllSame middle after) :
    AllSame s after := fun y =>
  ⟨(second y).fd.trans (first y).fd, (second y).kind.trans (first y).kind,
    (second y).valid.trans (first y).valid⟩

omit [DecidableEq π] in
theorem set_same {io : Io π} (same : Same (s.procs.ios x) io) : AllSame s (s.setIo x io) := by
  intro y
  by_cases here : y = x
  · subst here
    rw [watched_set_self]
    exact same
  · rw [show (s.setIo x io).procs.ios y = s.procs.ios y from set_io_other io here]
    exact ⟨rfl, rfl, rfl⟩

omit [DecidableEq ι] in
theorem remove_io_same (fd : Int) (deleted : Bool) : AllSame s (s.removeIo p fd deleted).2 := by
  unfold Watched.removeIo
  split
  · exact all_same_refl s
  · intro y
    change Same _ ((s.procs.removeIo p fd deleted).2.ios y)
    rw [remove_io_ios]
    exact ⟨rfl, rfl, rfl⟩

theorem update_manager_same (manager : Option π) (deleted : Bool) :
    AllSame s (s.updateManager x manager deleted) := by
  unfold Watched.updateManager
  cases (s.procs.ios x).manager with
  | none => exact set_same ⟨rfl, rfl, rfl⟩
  | some q => exact all_same_trans (remove_io_same _ deleted) (set_same ⟨rfl, rfl, rfl⟩)

theorem leave_manager_same (deleted : Bool) : AllSame s (s.leaveManager x deleted) := by
  unfold Watched.leaveManager
  cases (s.procs.ios x).manager with
  | none => exact all_same_refl s
  | some q => exact all_same_trans (remove_io_same _ deleted) (set_same ⟨rfl, rfl, rfl⟩)

theorem close_same (tcp : (s.procs.ios x).kind = .tcp) (deleted : Bool) :
    AllSame s (s.close x deleted) := by
  unfold Watched.close
  rw [tcp]
  dsimp only
  have left : AllSame s (s.leaveManager x deleted) := leave_manager_same deleted
  split
  · exact left
  · exact all_same_trans left (all_same_trans (all_same_refl _) (set_same ⟨rfl, rfl, rfl⟩))

theorem get_event_same (deleted : Bool) : AllSame s (s.getEvent x deleted).2 := by
  unfold Watched.getEvent
  cases kind : (s.procs.ios x).kind with
  | plain => exact all_same_refl s
  | tcp =>
      cases (s.procs.ios x).status with
      | closed => exact close_same kind deleted
      | peerShutdownWrite => exact set_same ⟨rfl, rfl, rfl⟩
      | initializing | connecting | connected | shutdownWrite | invalid => exact all_same_refl s

theorem epoll_ctl_relates (relates : Watched π ι → Watched π ι → Prop) {deleted : Bool}
    (chain : ∀ {s middle after}, relates s middle → relates middle after → relates s after)
    (event : ∀ t, relates t (t.getEvent x deleted).2)
    (reset : ∀ t : Watched π ι,
      relates t (t.setIo x { t.procs.ios x with supportEpollrdhup := false }))
    (first second : CtlResult) : relates s (s.epollCtlAdd x first second deleted).2 := by
  have seen := event s
  unfold Watched.epollCtlAdd
  rcases got : s.getEvent x deleted with ⟨answer, t⟩
  rw [got] at seen
  cases answer with
  | false => exact seen
  | true =>
      dsimp only
      split
      · have again := event (t.setIo x { t.procs.ios x with supportEpollrdhup := false })
        rcases later : (t.setIo x { t.procs.ios x with
          supportEpollrdhup := false }).getEvent x deleted with ⟨answer, u⟩
        rw [later] at again
        have both := chain seen (chain (reset t) again)
        cases answer with
        | false => exact both
        | true => exact both
      · exact seen

theorem epoll_ctl_same (first second : CtlResult) (deleted : Bool) :
    AllSame s (s.epollCtlAdd x first second deleted).2 :=
  epoll_ctl_relates AllSame all_same_trans (fun _ => get_event_same deleted)
    (fun _ => set_same ⟨rfl, rfl, rfl⟩) first second

theorem epoll_ctl_reports (first second : CtlResult) (deleted : Bool) :
    (s.epollCtlAdd x first second deleted).1 = some .ebadf → first = .ebadf ∨ second = .ebadf := by
  unfold Watched.epollCtlAdd
  rcases s.getEvent x deleted with ⟨answer, t⟩
  cases answer with
  | false => exact nofun
  | true =>
      dsimp only
      split
      · rcases (t.setIo x { t.procs.ios x with
          supportEpollrdhup := false }).getEvent x deleted with ⟨answer, u⟩
        cases answer with
        | false => exact nofun
        | true => exact fun same => .inr (Option.some.inj same)
      · exact fun same => .inl (Option.some.inj same)

theorem add_io_same (running : Bool) (first second : CtlResult) (deleted : Bool) :
    AllSame s (s.addIo p x running first second deleted).2 ∨
      ((first = .ebadf ∨ second = .ebadf) ∧ ∃ t, AllSame s t ∧
        (s.addIo p x running first second deleted).2 = t.markInvalid x deleted) := by
  unfold Watched.addIo
  split
  · exact .inl (all_same_refl s)
  · split
    · exact .inl (all_same_refl s)
    · have called := epoll_ctl_same (s := s) (x := x) first second deleted
      have reported := epoll_ctl_reports (s := s) (x := x) first second deleted
      rcases epoll : s.epollCtlAdd x first second deleted with ⟨result, t⟩
      rw [epoll] at called reported
      cases result with
      | none => exact .inl called
      | some result =>
          cases result with
          | ok =>
              have inserted : AllSame t (t.inserted p x) := fun _ => ⟨rfl, rfl, rfl⟩
              exact .inl (all_same_trans called
                (all_same_trans inserted (update_manager_same _ deleted)))
          | ebadf => exact .inr ⟨reported rfl, t, called, rfl⟩
          | einval | eexist | eperm | failed => exact .inl called

theorem mark_invalid_other {y : ι} (apart : y ≠ x) (deleted : Bool) :
    (s.markInvalid x deleted).procs.ios y = s.procs.ios y := by
  rw [mark_invalid_procs]
  unfold Processors.markInvalid
  cases (s.procs.ios x).kind with
  | plain => exact (set_io_other _ apart).trans ((update_manager_rebound x).others y apart)
  | tcp => exact set_io_other _ apart

theorem mark_invalid_same {y : ι} (kept : ¬(y = x ∧ (s.procs.ios x).kind = .plain))
    (deleted : Bool) : Same (s.procs.ios y) ((s.markInvalid x deleted).procs.ios y) := by
  by_cases here : y = x
  · subst here
    have tcp : (s.procs.ios y).kind = .tcp := by
      cases kind : (s.procs.ios y).kind with
      | plain => exact absurd ⟨rfl, kind⟩ kept
      | tcp => rfl
    have marked : s.markInvalid y deleted =
        s.setIo y { s.procs.ios y with status := .invalid } := by
      unfold Watched.markInvalid
      rw [tcp]
    have same : AllSame s (s.markInvalid y deleted) := marked ▸ set_same ⟨rfl, rfl, rfl⟩
    exact same y
  · rw [mark_invalid_other here]
    exact ⟨rfl, rfl, rfl⟩

theorem add_io_admitted {running : Bool} {first second : CtlResult} {deleted : Bool}
    (answer : (s.addIo p x running first second deleted).1 = .returned true) :
    (s.procs.ios x).validSafe = true := by
  unfold Watched.addIo at answer
  split at answer
  · exact nomatch answer
  · rename_i admitted
    rw [Bool.not_eq_false] at admitted
    exact (Bool.and_eq_true_iff.mp (Bool.and_eq_true_iff.mp admitted).1).2

end Frames

omit [DecidableEq π] [DecidableEq ι] in
theorem open_fd_opened {s : Process π ι} {fd e : Int} :
    (openFd s fd).opened e = true ↔ (e = fd ∧ 0 ≤ e) ∨ s.opened e = true := by
  unfold openFd
  dsimp only
  split
  · rename_i here
    exact ⟨fun _ => .inl here, fun _ => rfl⟩
  · rename_i elsewhere
    exact ⟨.inr, fun either => either.resolve_left elsewhere⟩

theorem unmade_refused {outcome : Outcome} (unmade : outcome ≠ .made)
    (survives : ∀ what, outcome ≠ .terminated what) : outcome = .refused := by
  cases outcome with
  | made => exact absurd rfl unmade
  | refused => rfl
  | terminated what => exact absurd rfl (survives what)

section Creations
variable {s : Process π ι} {p : π} {x : ι} {io : Io π} {running deleted : Bool}
  {first second : CtlResult}

theorem create_taken (made : (s.createIo p x io running first second deleted).1 = .made) :
    (s.setIo x io).watched.addIo p x running first second deleted =
      (.returned true, (s.createIo p x io running first second deleted).2.watched) := by
  unfold Process.createIo at made ⊢
  dsimp only at made ⊢
  split at made
  · rename_i isOpen
    rw [if_pos isOpen]
    rcases taken : (s.setIo x io).watched.addIo p x running first second deleted with
      ⟨result, after⟩
    rw [taken] at made
    cases result with
    | returned value =>
        cases value with
        | true => rfl
        | false => exact nomatch made
    | thrown what => exact nomatch made
  · exact nomatch made

theorem create_acceptor_taken {binds listens : Bool}
    (made : (s.createAcceptor p x io binds listens running first second deleted).1 = .made) :
    (s.setIo x io).watched.addIo p x running first second deleted = (.returned true,
      (s.createAcceptor p x io binds listens running first second deleted).2.watched) := by
  unfold Process.createAcceptor at made ⊢
  dsimp only at made ⊢
  split at made
  · rename_i starts
    rw [if_pos starts]
    rcases taken : (s.setIo x io).watched.addIo p x running first second deleted with
      ⟨result, after⟩
    rw [taken] at made
    cases result with
    | returned value =>
        cases value with
        | true => rfl
        | false => exact nomatch made
    | thrown what => exact nomatch made
  · exact nomatch made

theorem taken_same (unclosed : first ≠ .ebadf ∧ second ≠ .ebadf) {after : Watched π ι}
    (taken : (s.setIo x io).watched.addIo p x running first second deleted =
      (.returned true, after)) : Same io (after.procs.ios x) ∧ io.validSafe = true := by
  have self : (s.setIo x io).watched.procs.ios x = io := process_set_self
  have admitted := add_io_admitted (congrArg Prod.fst taken)
  have kept : AllSame (s.setIo x io).watched
      ((s.setIo x io).watched.addIo p x running first second deleted).2 := by
    rcases add_io_same (s := (s.setIo x io).watched) (p := p) (x := x) running first second deleted
      with same | ⟨reported | reported, _⟩
    · exact same
    · exact absurd reported unclosed.1
    · exact absurd reported unclosed.2
  have same := kept x
  rw [taken, self] at same
  rw [self] at admitted
  exact ⟨same, admitted⟩

omit [DecidableEq π] in
theorem open_valid_safe (isOpen : io.IsOpen) : io.validSafe = true := by
  unfold Io.IsOpen at isOpen
  unfold Io.validSafe
  cases kind : io.kind with
  | plain =>
      rw [kind] at isOpen
      exact isOpen
  | tcp =>
      rw [kind] at isOpen
      exact decide_eq_true (fun shut => isOpen (.inr shut))

theorem add_io_listed {t : Watched π ι} {y z : ι}
    (listed : t.procs.ioMap p (t.procs.ios z).fd = some y) :
    (t.addIo p z running first second deleted).1 =
      if t.procs.admits p z running = true then
        .thrown ("Try to add a fd " ++ toString (t.procs.ios z).fd ++
          " which in epoll fd 's map!")
      else .returned false := by
  have held : (t.procs.ioMap p (t.procs.ios z).fd).isSome = true := by
    rw [listed]
    rfl
  unfold Watched.addIo
  cases admitted : t.procs.admits p z running with
  | true => rw [if_neg Bool.true_eq_false.mp, if_pos held, if_pos rfl]
  | false => rw [if_pos rfl, if_neg Bool.false_ne_true]

omit [DecidableEq π] in
theorem set_admits : (s.setIo x io).watched.procs.admits p x running = true ↔
    io.validSafe = true ∧ running = true ∧ io.fd ≠ s.watched.procs.epfd p := by
  have self : (s.setIo x io).watched.procs.ios x = io := process_set_self
  rw [Processors.admits, self, Bool.and_eq_true, Bool.and_eq_true, decide_eq_true_iff]
  constructor
  · rintro ⟨⟨runs, safe⟩, other⟩
    exact ⟨safe, runs, other⟩
  · rintro ⟨safe, runs, other⟩
    exact ⟨⟨runs, safe⟩, other⟩

theorem set_listed {y : ι} (listed : s.watched.procs.ioMap p io.fd = some y) (x : ι)
    (running : Bool) (first second : CtlResult) (deleted : Bool) :
    ((s.setIo x io).watched.addIo p x running first second deleted).1 =
      if io.validSafe = true ∧ running = true ∧ io.fd ≠ s.watched.procs.epfd p then
        .thrown ("Try to add a fd " ++ toString io.fd ++ " which in epoll fd 's map!")
      else .returned false := by
  have self : (s.setIo x io).watched.procs.ios x = io := process_set_self
  have there : (s.setIo x io).watched.procs.ioMap p
      ((s.setIo x io).watched.procs.ios x).fd = some y := by
    rw [self]
    exact listed
  rw [add_io_listed there, if_congr set_admits rfl rfl, self]

theorem create_listed {y : ι} (listed : s.watched.procs.ioMap p io.fd = some y) :
    (s.createIo p x io running first second deleted).1 =
      if io.IsOpen ∧ running = true ∧ io.fd ≠ s.watched.procs.epfd p then
        .terminated ("Try to add a fd " ++ toString io.fd ++ " which in epoll fd 's map!")
      else .refused := by
  have answer := set_listed listed x running first second deleted
  unfold Process.createIo
  dsimp only
  by_cases isOpen : io.IsOpen
  · rw [if_pos isOpen]
    rcases called : (s.setIo x io).watched.addIo p x running first second deleted with ⟨result, t⟩
    rw [called] at answer
    subst answer
    by_cases runs : running = true ∧ io.fd ≠ s.watched.procs.epfd p
    · rw [if_pos ⟨open_valid_safe isOpen, runs⟩, if_pos ⟨isOpen, runs⟩]
    · rw [if_neg (fun all => runs all.2), if_neg (fun all => runs all.2)]
  · rw [if_neg isOpen, if_neg (fun all => isOpen all.1)]

theorem create_acceptor_listed {y : ι} {fd : Int} {fcntl binds listens : Bool}
    (listed : s.watched.procs.ioMap p fd = some y) :
    (s.createAcceptor p x (newAcceptor fd fcntl) binds listens running first second deleted).1 =
      if (binds = true ∧ listens = true) ∧ (0 < fd ∧ fcntl = true) ∧ running = true ∧
          fd ≠ s.watched.procs.epfd p then
        .terminated ("Try to add a fd " ++ toString fd ++ " which in epoll fd 's map!")
      else .refused := by
  obtain ⟨kind, same, _, valid⟩ := new_acceptor_fields (π := π) fd fcntl
  have safe : (newAcceptor fd fcntl : Io π).validSafe = true ↔ 0 < fd ∧ fcntl = true := by
    rw [← valid, Io.validSafe, kind]
  generalize newAcceptor fd fcntl = io at same safe
  subst same
  have answer := set_listed listed x running first second deleted
  unfold Process.createAcceptor
  dsimp only
  by_cases starts : (binds && listens) = true
  · rw [if_pos starts]
    rcases called : (s.setIo x io).watched.addIo p x running first second deleted with ⟨result, t⟩
    rw [called] at answer
    subst answer
    have both : binds = true ∧ listens = true := Bool.and_eq_true_iff.mp starts
    by_cases runs : io.validSafe = true ∧ running = true ∧ io.fd ≠ s.watched.procs.epfd p
    · rw [if_pos runs, if_pos ⟨both, safe.mp runs.1, runs.2⟩]
    · rw [if_neg runs, if_neg (fun all => runs ⟨safe.mpr all.2.1, all.2.2⟩)]
  · rw [if_neg starts, if_neg (fun all => starts (Bool.and_eq_true_iff.mpr all.1))]

end Creations

section Owners
variable {s after : Life π ι} {fd : Int}

/-- The descriptor is open for a reason. -/
def Owned (s : Life π ι) (fd : Int) : Prop :=
  s.outside fd = true ∨ s.abandoned fd = true ∨ s.orphaned fd = true ∨
    ∃ x, s.live x = true ∧ (s.io x).fd = fd ∧ (s.io x).valid = true

def AllOwned (s : Life π ι) : Prop := ∀ fd, s.process.opened fd = true → Owned s fd

omit [DecidableEq π] [DecidableEq ι] in
theorem owned_kept (owned : Owned s fd) (outside : after.outside = s.outside)
    (abandoned : s.abandoned fd = true → after.abandoned fd = true)
    (orphaned : s.orphaned fd = true → after.orphaned fd = true)
    (owners : ∀ x, s.live x = true → (s.io x).fd = fd → (s.io x).valid = true →
      after.live x = true ∧ Same (s.io x) (after.io x)) : Owned after fd := by
  rcases owned with out | left | marked | ⟨x, live, here, valid⟩
  · refine .inl ?_
    rw [outside]
    exact out
  · exact .inr (.inl (abandoned left))
  · exact .inr (.inr (.inl (orphaned marked)))
  · obtain ⟨lives, same⟩ := owners x live here valid
    exact .inr (.inr (.inr ⟨x, lives, same.fd.trans here, same.valid.trans valid⟩))

omit [DecidableEq π] in
theorem created_owned {p : π} {x : ι} {new : Io π} {number : Int} {reported : Option CtlResult}
    {GivesBack : Prop} {answer : Outcome × Process π ι} (all : AllOwned s)
    (fresh : Fresh s x number) (has : new.fd = number)
    (valid : new.validSafe = true → 0 ≤ number → new.valid = true)
    (fate : Fate p x number reported GivesBack (openFd s.process number) answer)
    (made : answer.1 = .made → Same new (answer.2.io x) ∧ new.validSafe = true)
    (survives : ∀ what, answer.1 ≠ .terminated what) : AllOwned (s.created x number answer) := by
  intro fd isOpen
  change answer.2.opened fd = true at isOpen
  -- What was open before is owned by others.
  have old : s.process.opened fd = true → Owned (s.created x number answer) fd := by
    intro before
    refine owned_kept (all fd before) rfl (fun left => ?_) id (fun y live _ _ => ?_)
    · change (s.abandoned fd || _) = true
      rw [left, Bool.true_or]
    · have apart : y ≠ x := by
        rintro rfl
        exact Bool.false_ne_true (fresh.1.symm.trans live)
      refine ⟨?_, ?_⟩
      · change (if y = x then _ else s.live y) = true
        rw [if_neg apart]
        exact live
      · rw [show (s.created x number answer).io y = s.io y from fate.others y apart]
        exact ⟨rfl, rfl, rfl⟩
  by_cases handed : answer.1 = .made
  · obtain ⟨same, safe⟩ := made handed
    rw [(fate.made handed).2, open_fd_opened] at isOpen
    rcases isOpen with ⟨rfl, bound⟩ | before
    · refine .inr (.inr (.inr ⟨x, ?_, same.fd.trans has, same.valid.trans (valid safe bound)⟩))
      change (if x = x then decide (answer.1 = .made) else s.live x) = true
      rw [if_pos rfl]
      exact decide_eq_true handed
    · exact old before
  · have refused := unmade_refused handed survives
    by_cases here : fd = number
    · refine .inr (.inl ?_)
      change (s.abandoned fd ||
        (decide (answer.1 = .refused ∧ fd = number) && answer.2.opened fd)) = true
      rw [isOpen, decide_eq_true ⟨refused, here⟩, Bool.and_self, Bool.or_true]
    · have before := open_fd_opened.mp (((fate.ended refused).opened fd).mp isOpen).1
      exact old (before.resolve_left (fun both => here both.1))

omit [DecidableEq π] [DecidableEq ι] in
theorem same_owned (all : AllOwned s) (outside : after.outside = s.outside)
    (abandoned : after.abandoned = s.abandoned) (orphaned : after.orphaned = s.orphaned)
    (live : after.live = s.live)
    (opened : ∀ fd, after.process.opened fd = true → s.process.opened fd = true)
    (same : ∀ x, s.live x = true → after.process.opened (s.io x).fd = true →
      Same (s.io x) (after.io x)) : AllOwned after := by
  intro fd isOpen
  refine owned_kept (all fd (opened fd isOpen)) outside (fun left => ?_) (fun marked => ?_)
    (fun x lives here _ => ?_)
  · rw [abandoned]
    exact left
  · rw [orphaned]
    exact marked
  · rw [live]
    exact ⟨lives, same x lives (here ▸ isOpen)⟩

theorem accept_owned {x : ι} {number : Int} (all : AllOwned s) (fresh : Fresh s x number) :
    AllOwned ((LifeOp.accept x number : LifeOp π ι).run s) := by
  have self : ((LifeOp.accept x number : LifeOp π ι).run s).io x = acceptedTcp number :=
    process_set_self
  intro fd isOpen
  rcases open_fd_opened.mp isOpen with ⟨rfl, bound⟩ | before
  · refine .inr (.inr (.inr ⟨x, if_pos rfl, ?_, ?_⟩))
    · rw [self]
      rfl
    · rw [self]
      exact Bool.and_eq_true_iff.mpr ⟨decide_eq_true bound, rfl⟩
  · refine owned_kept (all fd before) rfl id id (fun y live _ _ => ?_)
    have apart : y ≠ x := by
      rintro rfl
      exact Bool.false_ne_true (fresh.1.symm.trans live)
    refine ⟨(if_neg apart).trans live, ?_⟩
    rw [show ((LifeOp.accept x number : LifeOp π ι).run s).io y = s.io y from set_io_other _ apart]
    exact ⟨rfl, rfl, rfl⟩

theorem marked_owned {x : ι} (all : AllOwned s) (deleted : Bool) :
    AllOwned ((LifeOp.markInvalid x deleted : LifeOp π ι).run s) := by
  intro fd isOpen
  rcases all fd isOpen with out | left | marked | ⟨y, live, here, valid⟩
  · exact .inl out
  · exact .inr (.inl left)
  · refine .inr (.inr (.inl ?_))
    change (s.orphaned fd || _) = true
    rw [marked, Bool.true_or]
  · by_cases lost : y = x ∧ (s.io x).kind = .plain
    · obtain ⟨rfl, plain⟩ := lost
      refine .inr (.inr (.inl ?_))
      change (s.orphaned fd || _) = true
      rw [decide_eq_true ⟨plain, valid, isOpen, here.symm⟩, Bool.or_true]
    · have same : Same (s.io y) (((LifeOp.markInvalid x deleted : LifeOp π ι).run s).io y) :=
        mark_invalid_same lost deleted
      exact .inr (.inr (.inr ⟨y, live, same.fd.trans here, same.valid.trans valid⟩))

theorem mark_invalid_owned {x : ι} {t : Watched π ι} (all : AllOwned s)
    (same : AllSame s.process.watched t) (gone : s.process.opened (s.io x).fd = false)
    (deleted : Bool) :
    AllOwned { s with process := { s.process with watched := t.markInvalid x deleted } } := by
  refine same_owned all rfl rfl rfl rfl (fun _ => id) (fun y _ isOpen => ?_)
  have apart : y ≠ x := by
    rintro rfl
    exact Bool.false_ne_true (gone.symm.trans isOpen)
  change Same (s.process.watched.procs.ios y) ((t.markInvalid x deleted).procs.ios y)
  rw [mark_invalid_other apart]
  exact same y

theorem close_owned {x : ι} {deleted : Bool} (all : AllOwned s) :
    AllOwned { s with process := closeIo s.process x deleted } := by
  have opened (fd : Int) (isOpen : (closeIo s.process x deleted).opened fd = true) :
      s.process.opened fd = true ∧ ¬((s.io x).IsOpen ∧ fd = (s.io x).fd) := by
    unfold closeIo at isOpen
    dsimp only at isOpen
    split at isOpen
    · cases isOpen
    · rename_i kept
      exact ⟨isOpen, kept⟩
  refine same_owned all rfl rfl rfl rfl (fun fd isOpen => (opened fd isOpen).1) (fun y _ isOpen => ?_)
  change Same (s.process.watched.procs.ios y) ((s.process.watched.close x deleted).procs.ios y)
  cases kind : (s.process.watched.procs.ios x).kind with
  | tcp => exact close_same kind deleted y
  | plain =>
      unfold Watched.close
      rw [kind]
      dsimp only
      split
      · rename_i valid
        -- `close` clears `valid` of the instance whose descriptor it closes.
        have closes : (s.io x).IsOpen := by
          have kind_ : (s.io x).kind = .plain := kind
          rw [Io.IsOpen, kind_]
          exact valid
        have apart : y ≠ x := by
          rintro rfl
          exact (opened _ isOpen).2 ⟨closes, rfl⟩
        rw [show ((s.process.watched.closeFd _).setIo x _).procs.ios y =
          s.process.watched.procs.ios y from set_io_other _ apart]
        exact ⟨rfl, rfl, rfl⟩
      · exact ⟨rfl, rfl, rfl⟩

omit [DecidableEq π] in
theorem destroy_owned {x : ι} (all : AllOwned s) :
    AllOwned { s with
      process := s.process.destroy x, live := fun y => if y = x then false else s.live y } := by
  intro fd isOpen
  have opened : s.process.opened fd = true ∧ ¬((s.io x).valid = true ∧ fd = (s.io x).fd) := by
    change (s.process.destroy x).opened fd = true at isOpen
    unfold Process.destroy at isOpen
    split at isOpen
    · rename_i valid
      dsimp only at isOpen
      split at isOpen
      · cases isOpen
      · rename_i apart
        exact ⟨isOpen, fun both => apart both.2⟩
    · rename_i lost
      exact ⟨isOpen, fun both => lost both.1⟩
  refine owned_kept (all fd opened.1) rfl id id (fun y live here valid => ?_)
  have apart : y ≠ x := by
    rintro rfl
    exact opened.2 ⟨valid, here.symm⟩
  refine ⟨(if_neg apart).trans live, ?_⟩
  rw [show Life.io { s with process := s.process.destroy x, live := _ } y = s.io y from
    destroy_io y]
  exact ⟨rfl, rfl, rfl⟩

theorem run_owned {op : LifeOp π ι} (all : AllOwned s) (possible : Possible s op)
    (survives : Survives s op) : AllOwned (op.run s) := by
  cases op with
  | create p x io running first second deleted =>
      obtain ⟨fresh, constructed, unclosed⟩ := possible
      refine created_owned all fresh rfl (fun safe bound => ?_)
        (create_io_fate (openFd s.process io.fd) p x constructed.1 running first second deleted)
        (fun made => taken_same unclosed (create_taken made)) survives
      unfold Io.validSafe at safe
      cases kind : io.kind with
      | plain =>
          rw [kind] at safe
          exact safe
      | tcp => exact constructed.2 kind bound
  | createAcceptor p x fd fcntl binds listens running first second deleted =>
      obtain ⟨fresh, unclosed⟩ := possible
      obtain ⟨kind, has, _⟩ := new_acceptor_fields (π := π) fd fcntl
      refine created_owned all fresh has (fun safe _ => ?_)
        (create_acceptor_fate (openFd s.process fd) p x fd fcntl binds listens running first second
          deleted) (fun made => taken_same unclosed (create_acceptor_taken made)) survives
      unfold Io.validSafe at safe
      rw [kind] at safe
      exact safe
  | accept x fd => exact accept_owned all possible
  | addIo p x running first second deleted =>
      rcases add_io_same (s := s.process.watched) (p := p) (x := x) running first second deleted
        with same | ⟨reported, t, same, marked⟩
      · exact same_owned all rfl rfl rfl rfl (fun _ => id) (fun y _ _ => same y)
      · have owned := mark_invalid_owned all same (possible.2 reported) deleted
        rw [← marked] at owned
        exact owned
  | removeIo p fd deleted =>
      exact same_owned all rfl rfl rfl rfl (fun _ => id) (fun x _ _ => remove_io_same fd deleted x)
  | close x deleted => exact close_owned all
  | markInvalid x deleted => exact marked_owned all deleted
  | change x readable writable status support =>
      have same : AllSame s.process.watched (s.process.watched.setIo x
          { s.io x with readable, writable, status, supportEpollrdhup := support }) :=
        set_same ⟨rfl, rfl, rfl⟩
      exact same_owned all rfl rfl rfl rfl (fun _ => id) (fun y _ _ => same y)
  | destroy x => exact destroy_owned all

theorem reachable_owned (reached : Reachable (lifeSystem π ι) s) : AllOwned s := by
  induction reached with
  | start begins =>
      intro fd isOpen
      refine .inl ?_
      rw [← begins.2.2.1]
      exact isOpen
  | next _ _ moves ih =>
      obtain ⟨⟨possible, survives⟩, rfl⟩ := moves
      exact run_owned ih possible survives

/-- In every run a descriptor that is open belongs to no instance of ours, or to a live
one whose `valid` says that `~io` will close it, or to none any more: a creation has left
it open without handing its instance out, or a plain io had it when it was marked
invalid. -/
theorem open_descriptors_owned (reached : Reachable (lifeSystem π ι) s)
    (isOpen : s.process.opened fd = true) :
    s.outside fd = true ∨ s.abandoned fd = true ∨ s.orphaned fd = true ∨
      ∃ x, s.live x = true ∧ (s.io x).fd = fd ∧ (s.io x).valid = true :=
  reachable_owned reached fd isOpen

end Owners

section Entries
variable {s middle after : Watched π ι} {p : π} {x : ι}

/-- What an operation of one instance does to the maps: it may take the entry of its
manager away, and becomes managed only where there was no entry. -/
structure Touches (x : ι) (s after : Watched π ι) : Prop where
  others : ∀ y, y ≠ x → after.procs.ios y = s.procs.ios y
  fd : (after.procs.ios x).fd = (s.procs.ios x).fd
  kept : ∀ q e y, s.procs.ioMap q e = some y → after.procs.ioMap q e = some y ∨
    ((s.procs.ios x).manager = some q ∧ e = (s.procs.ios x).fd)
  managed : ∀ q, (after.procs.ios x).manager = some q →
    (s.procs.ios x).manager = some q ∨ s.procs.ioMap q (s.procs.ios x).fd = none

omit [DecidableEq π] [DecidableEq ι] in
theorem touches_refl (x : ι) (s : Watched π ι) : Touches x s s :=
  ⟨fun _ _ => rfl, rfl, fun _ _ _ => .inl, fun _ => .inl⟩

omit [DecidableEq π] [DecidableEq ι] in
theorem touches_trans (first : Touches x s middle) (second : Touches x middle after) :
    Touches x s after := by
  refine ⟨fun y apart => (second.others y apart).trans (first.others y apart),
    second.fd.trans first.fd, fun q e y listed => ?_, fun q managed => ?_⟩
  · rcases first.kept q e y listed with there | gone
    · rcases second.kept q e y there with still | ⟨managed, here⟩
      · exact .inl still
      · rw [first.fd] at here
        rcases first.managed q managed with before | free
        · exact .inr ⟨before, here⟩
        · rw [here] at listed
          exact absurd (free.symm.trans listed) (Option.some_ne_none y).symm
    · exact .inr gone
  · rcases second.managed q managed with before | free
    · exact first.managed q before
    · rw [first.fd] at free
      cases listed : s.procs.ioMap q (s.procs.ios x).fd with
      | none => exact .inr rfl
      | some y =>
          rcases first.kept q _ y listed with there | gone
          · exact absurd (free.symm.trans there) (Option.some_ne_none y).symm
          · exact .inl gone.1

omit [DecidableEq π] in
theorem set_touches {io : Io π} (fd : io.fd = (s.procs.ios x).fd)
    (managed : ∀ q, io.manager = some q → (s.procs.ios x).manager = some q ∨
      s.procs.ioMap q (s.procs.ios x).fd = none) : Touches x s (s.setIo x io) := by
  refine ⟨fun y apart => set_io_other io apart, ?_, fun _ _ _ => .inl, fun q => ?_⟩
  · rw [watched_set_self]
    exact fd
  · rw [watched_set_self]
    exact managed q

omit [DecidableEq ι] in
theorem remove_io_touches {q : π} (managed : (s.procs.ios x).manager = some q) (deleted : Bool) :
    Touches x s (s.removeIo q (s.procs.ios x).fd deleted).2 := by
  have procs := (remove_io_procs (s := s) (p := q) (s.procs.ios x).fd deleted).2
  have ios : (s.removeIo q (s.procs.ios x).fd deleted).2.procs.ios = s.procs.ios := by
    rw [procs, remove_io_ios]
  refine ⟨fun y _ => by rw [ios], by rw [ios], fun r e y listed => ?_, fun r => ?_⟩
  · rw [procs, remove_io_map]
    by_cases here : r = q ∧ e = (s.procs.ios x).fd
    · rw [here.1, here.2]
      exact .inr ⟨managed, rfl⟩
    · rw [if_neg here]
      exact .inl listed
  · rw [ios]
    exact .inl

theorem leave_manager_touches (deleted : Bool) : Touches x s (s.leaveManager x deleted) := by
  unfold Watched.leaveManager
  cases managed : (s.procs.ios x).manager with
  | none => exact touches_refl x s
  | some q => exact touches_trans (remove_io_touches managed deleted) (set_touches rfl nofun)

theorem update_none_touches (deleted : Bool) : Touches x s (s.updateManager x none deleted) := by
  unfold Watched.updateManager
  cases managed : (s.procs.ios x).manager with
  | none => exact set_touches rfl nofun
  | some q => exact touches_trans (remove_io_touches managed deleted) (set_touches rfl nofun)

theorem mark_invalid_touches (deleted : Bool) : Touches x s (s.markInvalid x deleted) := by
  unfold Watched.markInvalid
  cases (s.procs.ios x).kind with
  | plain => exact touches_trans (update_none_touches deleted) (set_touches rfl (fun _ => .inl))
  | tcp => exact set_touches rfl (fun _ => .inl)

omit [DecidableEq π] [DecidableEq ι] in
theorem close_fd_touches (fd : Int) : Touches x s (s.closeFd fd) :=
  ⟨fun _ _ => rfl, rfl, fun _ _ _ => .inl, fun _ => .inl⟩

theorem close_touches (deleted : Bool) : Touches x s (s.close x deleted) := by
  unfold Watched.close
  cases (s.procs.ios x).kind with
  | plain =>
      dsimp only
      split
      · exact touches_trans (close_fd_touches _) (set_touches rfl (fun _ => .inl))
      · exact touches_refl x s
  | tcp =>
      dsimp only
      split
      · exact leave_manager_touches deleted
      · exact touches_trans (leave_manager_touches deleted)
          (touches_trans (close_fd_touches _) (set_touches rfl (fun _ => .inl)))

theorem get_event_touches (deleted : Bool) : Touches x s (s.getEvent x deleted).2 := by
  unfold Watched.getEvent
  cases (s.procs.ios x).kind with
  | plain => exact touches_refl x s
  | tcp =>
      cases (s.procs.ios x).status with
      | closed => exact close_touches deleted
      | peerShutdownWrite => exact set_touches rfl (fun _ => .inl)
      | initializing | connecting | connected | shutdownWrite | invalid => exact touches_refl x s

theorem epoll_ctl_touches (first second : CtlResult) (deleted : Bool) :
    Touches x s (s.epollCtlAdd x first second deleted).2 :=
  epoll_ctl_relates (Touches x) touches_trans (fun _ => get_event_touches deleted)
    (fun _ => set_touches rfl (fun _ => .inl)) first second

omit [DecidableEq π] in
theorem managed_touches {io : Io π} (touches : Touches x s middle)
    (fd : io.fd = (middle.procs.ios x).fd)
    (free : ∀ q, io.manager = some q → s.procs.ioMap q (s.procs.ios x).fd = none) :
    Touches x s (middle.setIo x io) := by
  refine ⟨fun y apart => ?_, ?_, touches.kept, fun q managed => ?_⟩
  · exact (set_io_other io apart).trans (touches.others y apart)
  · rw [watched_set_self, fd]
    exact touches.fd
  · rw [watched_set_self] at managed
    exact .inr (free q managed)

theorem update_manager_again (manager : Option π) (deleted : Bool) :
    s.updateManager x manager deleted = (s.updateManager x none deleted).setIo x
      { (s.updateManager x none deleted).procs.ios x with manager } := by
  unfold Watched.updateManager
  rw [watched_set_self, watched_set_twice]

omit [DecidableEq ι] in
theorem inserted_touches : Touches x s (s.inserted p x) := by
  refine ⟨fun _ _ => rfl, rfl, fun q e y listed => .inl ?_, fun _ => .inl⟩
  change (if _ then some x else s.procs.ioMap q e) = some y
  split
  · rename_i new
    obtain ⟨rfl, rfl, free⟩ := new
    exact absurd (free.symm.trans listed) (Option.some_ne_none y).symm
  · exact listed

theorem add_io_touches (running : Bool) (first second : CtlResult) (deleted : Bool) :
    Touches x s (s.addIo p x running first second deleted).2 := by
  unfold Watched.addIo
  split
  · exact touches_refl x s
  · split
    · exact touches_refl x s
    · rename_i absent
      have called := epoll_ctl_touches (s := s) (x := x) first second deleted
      rcases epoll : s.epollCtlAdd x first second deleted with ⟨result, t⟩
      rw [epoll] at called
      cases result with
      | none => exact called
      | some result =>
          cases result with
          | ok =>
              change Touches x s ((t.inserted p x).updateManager x (some p) deleted)
              rw [update_manager_again]
              refine managed_touches (touches_trans called
                (touches_trans inserted_touches (update_none_touches deleted))) rfl ?_
              intro q managed
              cases managed
              exact Option.not_isSome_iff_eq_none.mp absent
          | ebadf => exact touches_trans called (mark_invalid_touches deleted)
          | einval | eexist | eperm | failed => exact called

end Entries

section Stale
variable {start s after : Life π ι} {p : π} {fd : Int} {x y : ι}

/-- A plain io has been closed and is still in the map. -/
structure ClosedEntry (p : π) (fd : Int) (x : ι) (s : Life π ι) : Prop where
  live : s.live x = true
  entry : s.process.watched.procs.ioMap p fd = some x
  kind : (s.io x).kind = .plain
  closed : (s.io x).valid = false

/-- The instance would call `remove_io` for the entry. -/
def Shares (p : π) (fd : Int) (s : Life π ι) (y : ι) : Prop :=
  (s.io y).manager = some p ∧ (s.io y).fd = fd

/-- Nobody takes the entry away: no `remove_io` for it, no `mark_invalid` of the closed io,
and no other instance with its manager and its descriptor is closed, marked or added. -/
def Spares (p : π) (fd : Int) (x : ι) (s : Life π ι) : LifeOp π ι → Prop
  | .removeIo q e _ => ¬(q = p ∧ e = fd)
  | .markInvalid y _ => y ≠ x ∧ ¬Shares p fd s y
  | .close y _ | .addIo _ y _ _ _ _ => y = x ∨ ¬Shares p fd s y
  | _ => True

/-- What holds from `start` on; an instance that shares the entry shared it there. -/
structure Stale (p : π) (fd : Int) (x : ι) (start s : Life π ι) : Prop extends
    ClosedEntry p fd x s where
  shared : ∀ y, y ≠ x → s.live y = true → Shares p fd s y →
    start.live y = true ∧ Shares p fd start y

omit [DecidableEq π] [DecidableEq ι] in
theorem touched_stale (stale : Stale p fd x start s) (apart : y ≠ x) (spared : ¬Shares p fd s y)
    (live : after.live = s.live) (touches : Touches y s.process.watched after.process.watched) :
    Stale p fd x start after := by
  have same : after.io x = s.io x := touches.others x apart.symm
  refine ⟨⟨?_, ?_, ?_, ?_⟩, fun z other later shares => ?_⟩
  · rw [live]
    exact stale.live
  · rcases touches.kept p fd x stale.entry with there | ⟨managed, number⟩
    · exact there
    · exact absurd ⟨managed, number.symm⟩ spared
  · rw [same]
    exact stale.kind
  · rw [same]
    exact stale.closed
  · rw [live] at later
    by_cases self : z = y
    · subst self
      have number : (s.io z).fd = fd := touches.fd.symm.trans shares.2
      rcases touches.managed p shares.1 with before | free
      · exact absurd ⟨before, number⟩ spared
      · rw [show (s.process.watched.procs.ios z).fd = fd from number] at free
        exact absurd (free.symm.trans stale.entry) (Option.some_ne_none x).symm
    · have unchanged : after.io z = s.io z := touches.others z self
      rw [Shares, unchanged] at shares
      exact stale.shared z other later shares

omit [DecidableEq π] [DecidableEq ι] in
theorem still_stale (stale : Stale p fd x start s)
    (maps : after.process.watched.procs.ioMap = s.process.watched.procs.ioMap)
    (here : after.live x = true)
    (others : ∀ z, after.live z = true → Shares p fd after z → s.live z = true ∧ Shares p fd s z)
    (same : (after.io x).kind = (s.io x).kind ∧ (after.io x).valid = (s.io x).valid) :
    Stale p fd x start after := by
  refine ⟨⟨here, ?_, same.1.trans stale.kind, same.2.trans stale.closed⟩,
    fun z other later shares => ?_⟩
  · rw [maps]
    exact stale.entry
  · obtain ⟨before, shared⟩ := others z later shares
    exact stale.shared z other before shared

omit [DecidableEq π] in
theorem created_stale {new : Io π} {number : Int} {reported : Option CtlResult} {GivesBack : Prop}
    {answer : Outcome × Process π ι} (stale : Stale p fd x start s) (fresh : s.live y = false)
    {q : π} (fate : Fate q y number reported GivesBack (openFd s.process number) answer)
    (free : new.manager = none) (touches : answer.1 = .made →
      Touches y ((openFd s.process number).setIo y new).watched answer.2.watched)
    (survives : ∀ what, answer.1 ≠ .terminated what) :
    Stale p fd x start (s.created y number answer) := by
  have apart : x ≠ y := by
    rintro rfl
    exact Bool.false_ne_true (fresh.symm.trans stale.live)
  have same (z : ι) (other : z ≠ y) : (s.created y number answer).io z = s.io z :=
    fate.others z other
  have lives : (s.created y number answer).live x = true := (if_neg apart).trans stale.live
  have self : ((openFd s.process number).setIo y new).watched.procs.ios y = new := process_set_self
  have entry : answer.2.watched.procs.ioMap p fd = some x ∧
      ∀ z, (s.created y number answer).live z = true →
        Shares p fd (s.created y number answer) z → z ≠ y := by
    by_cases made : answer.1 = .made
    · have touched := touches made
      refine ⟨?_, fun z _ shares => ?_⟩
      · rcases touched.kept p fd x stale.entry with there | ⟨managed, _⟩
        · exact there
        · rw [self, free] at managed
          cases managed
      · rintro rfl
        have numbered := touched.fd.symm.trans shares.2
        rcases touched.managed p shares.1 with before | absent
        · rw [self, free] at before
          cases before
        · rw [numbered] at absent
          exact absurd (absent.symm.trans stale.entry) (Option.some_ne_none x).symm
    · have refused := unmade_refused made survives
      refine ⟨?_, fun z later _ => ?_⟩
      · rw [(fate.ended refused).maps]
        exact stale.entry
      · rintro rfl
        change (if z = z then decide (answer.1 = .made) else s.live z) = true at later
        rw [if_pos rfl] at later
        exact made (of_decide_eq_true later)
  refine ⟨⟨lives, entry.1, ?_, ?_⟩, fun z elsewhere later shares => ?_⟩
  · rw [same x apart]
    exact stale.kind
  · rw [same x apart]
    exact stale.closed
  · have other := entry.2 z later shares
    rw [Shares, same z other] at shares
    exact stale.shared z elsewhere ((if_neg other).symm.trans later) shares

theorem stale_refused (stale : ClosedEntry p fd x s) (q : π) (running : Bool)
    (first second : CtlResult) (deleted : Bool) : (s.process.watched.addIo q x running first second deleted).2 =
      s.process.watched := by
  have shut : s.process.watched.procs.admits q x running = false := by
    have closed : (s.io x).validSafe = false := by
      unfold Io.validSafe
      rw [stale.kind]
      exact stale.closed
    change (s.process.watched.procs.ios x).validSafe = false at closed
    rw [Processors.admits, closed, Bool.and_false, Bool.false_and]
  rw [Watched.addIo, if_pos shut]

theorem stale_close (stale : ClosedEntry p fd x s) (deleted : Bool) :
    (closeIo s.process x deleted).watched = s.process.watched := by
  have kind : (s.process.watched.procs.ios x).kind = .plain := stale.kind
  have closed : (s.process.watched.procs.ios x).valid = false := stale.closed
  change s.process.watched.close x deleted = _
  unfold Watched.close
  rw [kind, closed]
  exact if_neg Bool.false_ne_true

theorem remove_stale {q : π} {e : Int} {deleted : Bool} (stale : Stale p fd x start s)
    (apart : ¬(q = p ∧ e = fd)) :
    Stale p fd x start ((LifeOp.removeIo q e deleted : LifeOp π ι).run s) := by
  have procs := (remove_io_procs (s := s.process.watched) (p := q) e deleted).2
  have ios (z : ι) : ((LifeOp.removeIo q e deleted : LifeOp π ι).run s).io z = s.io z := by
    change (s.process.watched.removeIo q e deleted).2.procs.ios z = _
    rw [procs, remove_io_ios]
    rfl
  refine ⟨⟨stale.live, ?_, ?_, ?_⟩, fun z elsewhere lives shares => ?_⟩
  · change (s.process.watched.removeIo q e deleted).2.procs.ioMap p fd = some x
    rw [procs, remove_io_map, if_neg (fun both => apart ⟨both.1.symm, both.2.symm⟩)]
    exact stale.entry
  · rw [ios]
    exact stale.kind
  · rw [ios]
    exact stale.closed
  · rw [Shares, ios] at shares
    exact stale.shared z elsewhere lives shares

theorem stale_run {op : LifeOp π ι} (stale : Stale p fd x start s) (possible : Possible s op)
    (survives : Survives s op) (spares : Spares p fd x s op) : Stale p fd x start (op.run s) := by
  cases op with
  | create q y io running first second deleted =>
      refine created_stale stale possible.1.1
        (create_io_fate (openFd s.process io.fd) q y possible.2.1.1 running first second deleted)
        possible.2.1.1 (fun made => ?_) survives
      have touches := add_io_touches (s := ((openFd s.process io.fd).setIo y io).watched) (p := q)
        (x := y) running first second deleted
      rw [create_taken made] at touches
      exact touches
  | createAcceptor q y number fcntl binds listens running first second deleted =>
      have free := (new_acceptor_fields (π := π) number fcntl).2.2.1
      refine created_stale stale possible.1.1
        (create_acceptor_fate (openFd s.process number) q y number fcntl binds listens running first
          second deleted) free (fun made => ?_) survives
      have touches := add_io_touches
        (s := ((openFd s.process number).setIo y (newAcceptor number fcntl)).watched) (p := q)
        (x := y) running first second deleted
      rw [create_acceptor_taken made] at touches
      exact touches
  | accept y number =>
      have apart : x ≠ y := by
        rintro rfl
        exact Bool.false_ne_true (possible.1.symm.trans stale.live)
      have same (z : ι) (other : z ≠ y) :
          ((LifeOp.accept y number : LifeOp π ι).run s).io z = s.io z := set_io_other _ other
      refine still_stale stale rfl ((if_neg apart).trans stale.live)
        (fun z later shares => ?_) ?_
      · have other : z ≠ y := by
          rintro rfl
          have unmanaged : (((LifeOp.accept z number : LifeOp π ι).run s).io z).manager = none :=
            congrArg Io.manager process_set_self
          exact nomatch unmanaged.symm.trans shares.1
        rw [Shares, same z other] at shares
        exact ⟨(if_neg other).symm.trans later, shares⟩
      · rw [same x apart]
        exact ⟨rfl, rfl⟩
  | addIo q y running first second deleted =>
      by_cases self : y = x
      · subst self
        have unchanged := stale_refused stale.toClosedEntry q running first second deleted
        unfold LifeOp.run
        dsimp only
        rw [unchanged]
        exact stale
      · exact touched_stale stale self (spares.resolve_left self) rfl
          (add_io_touches running first second deleted)
  | removeIo q e deleted => exact remove_stale stale spares
  | close y deleted =>
      by_cases self : y = x
      · subst self
        have procs : ((LifeOp.close y deleted : LifeOp π ι).run s).process.watched =
          s.process.watched := stale_close stale.toClosedEntry deleted
        have same (z : ι) : ((LifeOp.close y deleted : LifeOp π ι).run s).io z = s.io z :=
          congrArg (fun watched => watched.procs.ios z) procs
        refine still_stale stale (congrArg (fun watched => watched.procs.ioMap) procs) stale.live
          (fun z lives shares => ?_) ?_
        · rw [Shares, same] at shares
          exact ⟨lives, shares⟩
        · rw [same]
          exact ⟨rfl, rfl⟩
      · exact touched_stale stale self (spares.resolve_left self) rfl (close_touches deleted)
  | markInvalid y deleted =>
      exact touched_stale stale spares.1 spares.2 rfl (mark_invalid_touches deleted)
  | change y readable writable status support =>
      let changed := { s.io y with readable, writable, status, supportEpollrdhup := support }
      have same : AllSame s.process.watched (s.process.watched.setIo y changed) :=
        set_same ⟨rfl, rfl, rfl⟩
      have manager (z : ι) : ((s.process.watched.setIo y changed).procs.ios z).manager =
          (s.process.watched.procs.ios z).manager := by
        by_cases self : z = y
        · subst self
          rw [watched_set_self]
          rfl
        · exact congrArg Io.manager (set_io_other changed self)
      refine still_stale stale rfl stale.live (fun z lives shares => ?_)
        ⟨(same x).kind, (same x).valid⟩
      exact ⟨lives, (manager z).symm.trans shares.1, (same z).fd.symm.trans shares.2⟩
  | destroy y =>
      have apart : x ≠ y := by
        rintro rfl
        exact possible.2 p fd stale.entry
      have maps : (s.process.destroy y).watched.procs = s.process.watched.procs := by
        unfold Process.destroy
        split
        · rfl
        · rfl
      have same (z : ι) : ((LifeOp.destroy y : LifeOp π ι).run s).io z = s.io z := destroy_io z
      refine still_stale stale (congrArg Processors.ioMap maps) ((if_neg apart).trans stale.live)
        (fun z later shares => ?_) ?_
      · rw [Shares, same] at shares
        change (if z = y then false else s.live z) = true at later
        split at later
        · cases later
        · exact ⟨later, shares⟩
      · rw [same]
        exact ⟨rfl, rfl⟩

def laterSystem (start : Life π ι) : System (Life π ι) (LifeOp π ι) :=
  { lifeSystem π ι with init := fun s => s = start }

theorem stays_stale (closed : ClosedEntry p fd x start)
    (reached : ReachableBy (laterSystem start) (Spares p fd x) s) : Stale p fd x start s := by
  induction reached with
  | start begins =>
      cases begins
      exact ⟨closed, fun _ _ lives shares => ⟨lives, shares⟩⟩
  | next _ meets moves ih =>
      obtain ⟨⟨possible, survives⟩, rfl⟩ := moves
      exact stale_run ih possible survives meets

theorem close_goes_stale {deleted : Bool} (live : s.live x = true)
    (entry : s.process.watched.procs.ioMap p fd = some x) (kind : (s.io x).kind = .plain)
    (valid : (s.io x).valid = true) :
    ClosedEntry p fd x ((LifeOp.close x deleted : LifeOp π ι).run s) := by
  have kind_ : (s.process.watched.procs.ios x).kind = .plain := kind
  have valid_ : (s.process.watched.procs.ios x).valid = true := valid
  have closes : s.process.watched.close x deleted =
      (s.process.watched.closeFd (s.io x).fd).setIo x { s.io x with valid := false } := by
    unfold Watched.close
    rw [kind_, valid_]
    rfl
  have self : ((LifeOp.close x deleted : LifeOp π ι).run s).io x =
      { s.io x with valid := false } := by
    change (s.process.watched.close x deleted).procs.ios x = _
    rw [closes, watched_set_self]
  refine ⟨live, ?_, ?_, ?_⟩
  · change (s.process.watched.close x deleted).procs.ioMap p fd = some x
    rw [closes]
    exact entry
  · rw [self]
    exact kind
  · rw [self]

/-- From the close of a plain io that a processor has on, and until somebody removes its
entry, as `Spares` says: the processor keeps it, and no instance but those that had the
processor and the descriptor at the close has both. `add_io` takes no instance with this
descriptor, which the kernel may hand out again: it refuses the instance before it looks
at the map, or throws. So a creation is refused or ends the program, and so does the
`add_io` of an accepted connection. -/
theorem closed_entry_blocks (closed : ClosedEntry p fd x start)
    (reached : ReachableBy (laterSystem start) (Spares p fd x) s) :
    s.process.watched.procs.ioMap p fd = some x ∧
      (∀ y, y ≠ x → s.live y = true → Shares p fd s y →
        start.live y = true ∧ Shares p fd start y) ∧
      (∀ y running first second deleted, (s.io y).fd = fd →
        (s.process.watched.addIo p y running first second deleted).1 =
          if s.process.watched.procs.admits p y running = true then
            .thrown ("Try to add a fd " ++ toString fd ++ " which in epoll fd 's map!")
          else .returned false) ∧
      (∀ y (io : Io π) running first second deleted, io.fd = fd →
        ((openFd s.process fd).createIo p y io running first second deleted).1 =
          if io.IsOpen ∧ running = true ∧ fd ≠ s.process.watched.procs.epfd p then
            .terminated ("Try to add a fd " ++ toString fd ++ " which in epoll fd 's map!")
          else .refused) ∧
      ∀ y fcntl binds listens running first second deleted,
        ((openFd s.process fd).createAcceptor p y (newAcceptor fd fcntl) binds listens running
          first second deleted).1 =
          if (binds = true ∧ listens = true) ∧ (0 < fd ∧ fcntl = true) ∧ running = true ∧
              fd ≠ s.process.watched.procs.epfd p then
            .terminated ("Try to add a fd " ++ toString fd ++ " which in epoll fd 's map!")
          else .refused := by
  have now := stays_stale closed reached
  refine ⟨now.entry, now.shared, fun y running first second deleted number => ?_,
    fun y io running first second deleted number => ?_,
    fun y fcntl binds listens running first second deleted => ?_⟩
  · subst number
    exact add_io_listed now.entry
  · subst number
    exact create_listed now.entry
  · exact create_acceptor_listed now.entry

end Stale

section Samples

def idleLife : Life Unit Bool :=
  ⟨idleProcess, fun _ => false, fun _ => false, fun _ => false, idleProcess.opened⟩

def seventh : Io Unit := newIo .plain 7 true true true true true .initializing

def withSeventh : Life Unit Bool :=
  (LifeOp.create () true seventh true .ok .ok true : LifeOp Unit Bool).run idleLife

def withClosed : Life Unit Bool := (LifeOp.close true true : LifeOp Unit Bool).run withSeventh

theorem with_seventh_reachable : Reachable (lifeSystem Unit Bool) withSeventh := by
  have starts : (lifeSystem Unit Bool).init idleLife :=
    ⟨fun _ => rfl, fun _ => ⟨rfl, rfl⟩, rfl, fun _ _ => rfl⟩
  have possible : Possible idleLife (LifeOp.create () true seventh true .ok .ok true) :=
    ⟨⟨rfl, fun _ => rfl⟩, ⟨rfl, nofun⟩, nofun, nofun⟩
  have made : ((openFd idleLife.process 7).createIo () true seventh true .ok .ok true).1 =
      .made := by decide
  have survives : Survives idleLife (LifeOp.create () true seventh true .ok .ok true) :=
    fun what ended => by cases made.symm.trans ended
  exact reachable_next (.start starts) ⟨⟨possible, survives⟩, rfl⟩

theorem open_descriptors_owned_sample : withSeventh.outside 7 = true ∨
    withSeventh.abandoned 7 = true ∨ withSeventh.orphaned 7 = true ∨
      ∃ x, withSeventh.live x = true ∧ (withSeventh.io x).fd = 7 ∧
        (withSeventh.io x).valid = true :=
  open_descriptors_owned with_seventh_reachable (by decide)

theorem with_closed_stale : ClosedEntry () 7 true withClosed :=
  close_goes_stale (by decide) (by decide) (by decide) (by decide)

/-- The kernel hands out 7 again, and the creation ends the program. -/
theorem closed_entry_blocks_sample : ((openFd withClosed.process 7).createIo () false seventh true
    .ok .ok true).1 = .terminated "Try to add a fd 7 which in epoll fd 's map!" := by
  have creates := (closed_entry_blocks with_closed_stale (.start rfl)).2.2.2.1
  rw [creates false seventh true .ok .ok true rfl]
  decide

end Samples

end Npoller.Descriptors
