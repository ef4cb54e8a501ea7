import Npoller.AddIoAnswer

/-!
`io_factory::create_io_in_eventloop`, the general one and the one for acceptors, with
the end of an instance that is not handed out. A new instance owns the descriptor it
was constructed with; `mark_invalid` of a plain io clears the flag by which `~io`
decides whether to close it, that of a tcp does not. `add_io` is declared `throw()`, so
nothing that it throws gets out of it: the program ends there.
-/

namespace Npoller.IoCreation

open TcpSetters IoMap AddIoAnswer

variable {π ι : Type*} [DecidableEq π] [DecidableEq ι]

structure Process (π ι : Type*) where
  watched : Watched π ι
  opened : Int → Bool

def Process.io (s : Process π ι) (x : ι) : Io π := s.watched.procs.ios x

def Process.setIo (s : Process π ι) (x : ι) (io : Io π) : Process π ι :=
  { s with watched := s.watched.setIo x io }

/-- The constructor of `io`; `fcntl` says whether the descriptor became non-blocking. -/
def newIo (kind : Kind) (fd : Int) (readable writable supportEpollrdhup nonblock fcntl : Bool)
    (status : TcpStatus) : Io π :=
  { kind, fd, readable, writable, status, supportEpollrdhup
    valid := decide (0 ≤ fd) && (nonblock || fcntl), manager := none }

/-- `tcp(const logger &)` -/
def newTcp (fd : Int) : Io π :=
  newIo .tcp fd true true true true true (if fd < 0 then .invalid else .initializing)

/-- The constructor of `tcp_acceptor`. -/
def newAcceptor (fd : Int) (fcntl : Bool) : Io π :=
  let io : Io π := newIo .plain fd true false false false fcntl .initializing
  if fd ≤ 0 then { io with valid := false, readable := false, writable := false } else io

/-- `io::~io`, where `valid_safe` is the one of `io`. -/
def Process.destroy (s : Process π ι) (x : ι) : Process π ι :=
  if (s.io x).valid then
    { watched := s.watched.closeFd (s.io x).fd
      opened := fun fd => if fd = (s.io x).fd then false else s.opened fd }
  else s

instance (io : Io π) : Decidable io.IsOpen := by
  unfold Io.IsOpen
  split <;> infer_instance

inductive Outcome where
  | made
  | refused
  | terminated (what : String)
  deriving DecidableEq, Repr

/-- `create_io_in_eventloop` of a class other than `tcp_acceptor`. -/
def Process.createIo (s : Process π ι) (p : π) (x : ι) (io : Io π) (running : Bool)
    (first second : CtlResult) (deleted : Bool) : Outcome × Process π ι :=
  let s := s.setIo x io
  if io.IsOpen then
    match s.watched.addIo p x running first second deleted with
    | (.returned true, watched) => (.made, { s with watched })
    | (.returned false, watched) =>
        (.refused, Process.destroy { s with watched := watched.markInvalid x deleted } x)
    | (.thrown what, watched) => (.terminated what, { s with watched })
  else (.refused, Process.destroy { s with watched := s.watched.markInvalid x deleted } x)

/-- `create_io_in_eventloop` of an acceptor, with its `start_accept`. -/
def Process.createAcceptor (s : Process π ι) (p : π) (x : ι) (io : Io π) (binds listens : Bool)
    (running : Bool) (first second : CtlResult) (deleted : Bool) : Outcome × Process π ι :=
  let s := s.setIo x io
  if binds && listens then
    match s.watched.addIo p x running first second deleted with
    | (.returned true, watched) => (.made, { s with watched })
    | (.returned false, watched) => (.refused, Process.destroy { s with watched } x)
    | (.thrown what, watched) => (.terminated what, { s with watched })
  else (.refused, Process.destroy { s with watched := s.watched.markInvalid x deleted } x)

section Adding
variable {s after : Watched π ι} {p : π} {x : ι}

instance (io : Io π) : Decidable (Watches io) := by
  unfold Watches
  split <;> infer_instance

def report (s : Watched π ι) (p : π) (x : ι) (running : Bool) (first second : CtlResult) :
    Option CtlResult :=
  if s.procs.admits p x running = true ∧ s.procs.ioMap p (s.procs.ios x).fd = none ∧
    Watches (s.procs.ios x) then some (lastReport (s.procs.ios x) first second) else none

structure Untouched (x : ι) (s after : Watched π ι) : Prop where
  maps : after.procs.ioMap = s.procs.ioMap
  epoll : after.epoll = s.epoll
  others : ∀ y, y ≠ x → after.procs.ios y = s.procs.ios y
  fd : (after.procs.ios x).fd = (s.procs.ios x).fd
  kind : (after.procs.ios x).kind = (s.procs.ios x).kind
  manager : (after.procs.ios x).manager = none

omit [DecidableEq π] in
theorem untouched_set (io : Io π) (fd : io.fd = (s.procs.ios x).fd)
    (kind : io.kind = (s.procs.ios x).kind) (manager : io.manager = none) :
    Untouched x s (s.setIo x io) := by
  refine ⟨rfl, rfl, fun y apart => set_io_other _ apart, ?_, ?_, ?_⟩
  · rw [watched_set_self, fd]
  · rw [watched_set_self, kind]
  · rw [watched_set_self, manager]

omit [DecidableEq π] [DecidableEq ι] in
theorem untouched_trans {middle : Watched π ι} (first : Untouched x s middle)
    (second : Untouched x middle after) : Untouched x s after :=
  ⟨second.maps.trans first.maps, second.epoll.trans first.epoll,
    fun y apart => (second.others y apart).trans (first.others y apart),
    second.fd.trans first.fd, second.kind.trans first.kind, second.manager⟩

theorem mark_invalid_untouched (free : (s.procs.ios x).manager = none) (deleted : Bool) :
    Untouched x s (s.markInvalid x deleted) ∧
      (((s.markInvalid x deleted).procs.ios x).valid = true ↔
        (s.procs.ios x).valid = true ∧ (s.procs.ios x).kind = .tcp) := by
  unfold Watched.markInvalid
  cases kind : (s.procs.ios x).kind with
  | plain =>
      dsimp only
      unfold Watched.updateManager
      rw [free]
      dsimp only
      rw [watched_set_twice, watched_set_self]
      refine ⟨untouched_set _ rfl rfl rfl, ?_⟩
      rw [watched_set_self]
      exact iff_of_false nofun (fun both => nomatch both.2)
  | tcp =>
      refine ⟨untouched_set _ rfl rfl free, ?_⟩
      rw [watched_set_self]
      exact (and_iff_left rfl).symm

/-- What `add_io` does with an instance that no processor manages. -/
structure Added (p : π) (x : ι) (s : Watched π ι) (reported : Option CtlResult)
    (answer : Result × Watched π ι) : Prop where
  made : answer.1 = .returned true → Registered p x answer.2 ∨ reported = some .eperm
  others : ∀ y, y ≠ x → answer.2.procs.ios y = s.procs.ios y
  untouched : answer.1 ≠ .returned true → Untouched x s answer.2
  valid : answer.1 ≠ .returned true → ((answer.2.procs.ios x).valid = true ↔
    (s.procs.ios x).valid = true ∧ ¬(reported = some .ebadf ∧ (s.procs.ios x).kind = .plain))

omit [DecidableEq π] [DecidableEq ι] in
theorem added_same (free : (s.procs.ios x).manager = none) {result : Result}
    {reported : Option CtlResult} (failed : result ≠ .returned true)
    (other : reported ≠ some .ebadf) :
    Added p x s reported (result, s) := by
  refine ⟨fun made => absurd made failed, fun _ _ => rfl, fun _ => ?_, fun _ => ?_⟩
  · exact ⟨rfl, rfl, fun _ _ => rfl, rfl, rfl, free⟩
  · exact ⟨fun valid => ⟨valid, fun both => other both.1⟩, fun both => both.1⟩

theorem inserted_registers (free : (s.procs.ios x).manager = none)
    (absent : s.procs.ioMap p (s.procs.ios x).fd = none) (deleted : Bool) :
    Registered p x ((s.inserted p x).updateManager x (some p) deleted) ∧
      ∀ y, y ≠ x →
        ((s.inserted p x).updateManager x (some p) deleted).procs.ios y = s.procs.ios y := by
  refine ⟨(registers_iff absent deleted).mpr (by rw [free]; nofun), ?_⟩
  intro y apart
  have same : (s.inserted p x).procs.ios x = s.procs.ios x := rfl
  unfold Watched.updateManager
  rw [same, free]
  exact set_io_other _ apart

theorem added_reports (free : (s.procs.ios x).manager = none)
    (absent : s.procs.ioMap p (s.procs.ios x).fd = none) (result : CtlResult) (deleted : Bool) :
    Added p x s (some result) (s.added p x deleted result) := by
  cases result with
  | ok =>
      obtain ⟨registered, others⟩ := inserted_registers free absent deleted
      exact ⟨fun _ => .inl registered, others, fun failed => absurd rfl failed,
        fun failed => absurd rfl failed⟩
  | ebadf =>
      obtain ⟨untouched, valid⟩ := mark_invalid_untouched free deleted
      refine ⟨nofun, untouched.others, fun _ => untouched, fun _ => valid.trans ?_⟩
      cases (s.procs.ios x).kind <;> simp
  | eperm =>
      exact ⟨fun _ => .inr rfl, fun _ _ => rfl, fun failed => absurd rfl failed,
        fun failed => absurd rfl failed⟩
  | einval | eexist | failed => exact added_same free nofun nofun

omit [DecidableEq π] in
theorem added_set {flag : Bool} {reported : Option CtlResult} {answer : Result × Watched π ι}
    (added : Added p x (s.setIo x { s.procs.ios x with supportEpollrdhup := flag }) reported answer)
    (free : (s.procs.ios x).manager = none) : Added p x s reported answer := by
  have first : Untouched x s (s.setIo x { s.procs.ios x with supportEpollrdhup := flag }) :=
    untouched_set _ rfl rfl free
  refine ⟨added.made, fun y apart => (added.others y apart).trans (first.others y apart),
    fun failed => untouched_trans first (added.untouched failed), fun failed => ?_⟩
  have valid := added.valid failed
  rwa [watched_set_self] at valid

theorem get_event_idle (isOpen : (s.procs.ios x).kind = .tcp → ¬Final (s.procs.ios x).status)
    (unwatched : ¬Watches (s.procs.ios x)) (deleted : Bool) :
    s.getEvent x deleted = (false, s) := by
  unfold Watches at unwatched
  unfold Watched.getEvent
  cases kind : (s.procs.ios x).kind with
  | plain =>
      rw [kind] at unwatched
      have none_ : ((s.procs.ios x).readable || (s.procs.ios x).writable) = false := by
        simpa using unwatched
      exact congrArg (·, s) none_
  | tcp =>
      rw [kind] at unwatched
      exact absurd (isOpen kind) unwatched

theorem add_io_new (free : (s.procs.ios x).manager = none)
    (isOpen : (s.procs.ios x).kind = .tcp → ¬Final (s.procs.ios x).status) (running : Bool)
    (first second : CtlResult) (deleted : Bool) :
    Added p x s (report s p x running first second)
      (s.addIo p x running first second deleted) := by
  unfold Watched.addIo report
  by_cases admitted : s.procs.admits p x running = true
  · have open_ : ¬s.procs.admits p x running = false := by
      rw [admitted]
      exact Bool.noConfusion
    rw [if_neg open_]
    by_cases listed : s.procs.ioMap p (s.procs.ios x).fd = none
    · have absent : ¬(s.procs.ioMap p (s.procs.ios x).fd).isSome = true := by
        rw [listed]
        exact Bool.noConfusion
      rw [if_neg absent]
      by_cases watches : Watches (s.procs.ios x)
      · obtain ⟨flag, called⟩ := epoll_ctl_watched watches first second deleted
        rw [called, if_pos ⟨admitted, listed, watches⟩]
        refine added_set (added_reports ?_ ?_ _ deleted) free
        · rw [watched_set_self]
          exact free
        · rw [watched_set_self]
          exact listed
      · have missed : s.epollCtlAdd x first second deleted = (none, s) := by
          rw [Watched.epollCtlAdd, get_event_idle isOpen watches]
        rw [missed, if_neg (fun all => watches all.2.2)]
        exact added_same free (by simp) (by simp)
    · have held : (s.procs.ioMap p (s.procs.ios x).fd).isSome = true :=
        Option.isSome_iff_ne_none.mpr listed
      rw [if_pos held, if_neg (fun all => listed all.2.1)]
      exact added_same free (by simp) (by simp)
  · rw [if_pos (eq_false_of_ne_true admitted), if_neg (fun all => admitted all.1)]
    exact added_same free (by simp) (by simp)

end Adding

section Fates
variable {s middle : Process π ι} {p : π} {x : ι} {io : Io π}

/-- The instance is gone; `GivesBack` says whether its descriptor went with it. -/
structure Ended (x : ι) (fd : Int) (GivesBack : Prop) (s after : Process π ι) : Prop where
  maps : after.watched.procs.ioMap = s.watched.procs.ioMap
  epoll : ∀ q e, after.watched.epoll q e = true ↔
    s.watched.epoll q e = true ∧ ¬(GivesBack ∧ e = fd)
  opened : ∀ e, after.opened e = true ↔ s.opened e = true ∧ ¬(GivesBack ∧ e = fd)

structure Fate (p : π) (x : ι) (fd : Int) (reported : Option CtlResult) (GivesBack : Prop)
    (s : Process π ι) (answer : Outcome × Process π ι) : Prop where
  made : answer.1 = .made → (Registered p x answer.2.watched ∨ reported = some .eperm) ∧
    answer.2.opened = s.opened
  others : ∀ y, y ≠ x → answer.2.io y = s.io y
  ended : answer.1 = .refused → Ended x fd GivesBack s answer.2

omit [DecidableEq π] [DecidableEq ι] in
theorem destroy_io (y : ι) : (s.destroy x).io y = s.io y := by
  unfold Process.destroy
  split
  · rfl
  · rfl

omit [DecidableEq π] [DecidableEq ι] in
theorem destroy_ends (s middle : Process π ι) {GivesBack : Prop}
    (untouched : Untouched x s.watched middle.watched)
    (opened : middle.opened = s.opened) (valid : (middle.io x).valid = true ↔ GivesBack) :
    Ended x (s.io x).fd GivesBack s (middle.destroy x) := by
  have fd : (middle.io x).fd = (s.io x).fd := untouched.fd
  unfold Process.destroy
  by_cases gives : (middle.io x).valid = true
  · rw [if_pos gives, fd]
    have given : GivesBack := valid.mp gives
    refine ⟨untouched.maps, fun q e => ?_, fun e => ?_⟩
    · change (if e = (s.io x).fd then false else middle.watched.epoll q e) = true ↔ _
      rw [untouched.epoll]
      by_cases same : e = (s.io x).fd <;> simp [same, given]
    · change (if e = (s.io x).fd then false else middle.opened e) = true ↔ _
      rw [opened]
      by_cases same : e = (s.io x).fd <;> simp [same, given]
  · rw [if_neg gives]
    have kept : ¬GivesBack := fun given => gives (valid.mpr given)
    refine ⟨untouched.maps, fun q e => ?_, fun e => ?_⟩
    · rw [untouched.epoll]
      exact ⟨fun same => ⟨same, fun both => kept both.1⟩, fun both => both.1⟩
    · rw [opened]
      exact ⟨fun same => ⟨same, fun both => kept both.1⟩, fun both => both.1⟩

omit [DecidableEq π] in
theorem process_set_self : (s.setIo x io).io x = io := watched_set_self io

omit [DecidableEq π] in
theorem ended_fate {GivesBack : Prop} (reported : Option CtlResult) {after : Watched π ι}
    (untouched : Untouched x (s.setIo x io).watched after)
    (valid : (after.procs.ios x).valid = true ↔ GivesBack) :
    Fate p x io.fd reported GivesBack s
      (.refused, Process.destroy { s.setIo x io with watched := after } x) := by
  have ended := destroy_ends (s.setIo x io) { s.setIo x io with watched := after } untouched rfl
    valid
  rw [process_set_self] at ended
  refine ⟨fun made => (by cases made), fun y apart => ?_, fun _ => ?_⟩
  · rw [destroy_io]
    exact (untouched.others y apart).trans (set_io_other io apart)
  · exact ⟨ended.maps, ended.epoll, ended.opened⟩

omit [DecidableEq π] in
theorem made_fate (GivesBack : Prop) {reported : Option CtlResult} {after : Watched π ι}
    (added : Added p x (s.setIo x io).watched reported (.returned true, after)) :
    Fate p x io.fd reported GivesBack s (.made, { s.setIo x io with watched := after }) :=
  ⟨fun _ => ⟨added.made rfl, rfl⟩,
    fun y apart => (added.others y apart).trans (set_io_other io apart),
    fun refused => by cases refused⟩

omit [DecidableEq π] in
theorem terminated_fate (GivesBack : Prop) {reported : Option CtlResult} {what : String}
    {after : Watched π ι}
    (added : Added p x (s.setIo x io).watched reported (.thrown what, after)) :
    Fate p x io.fd reported GivesBack s
      (.terminated what, { s.setIo x io with watched := after }) :=
  ⟨fun made => (by cases made),
    fun y apart => (added.others y apart).trans (set_io_other io apart),
    fun refused => by cases refused⟩

theorem new_added (s : Process π ι) (p : π) (x : ι) (free : io.manager = none)
    (isOpen : io.kind = .tcp → ¬Final io.status) (running : Bool) (first second : CtlResult)
    (deleted : Bool) :
    Added p x (s.setIo x io).watched (report (s.setIo x io).watched p x running first second)
      ((s.setIo x io).watched.addIo p x running first second deleted) := by
  have self : (s.setIo x io).watched.procs.ios x = io := process_set_self
  apply add_io_new
  · rw [self]
    exact free
  · rw [self]
    exact isOpen

omit [DecidableEq π] in
theorem untouched_new (s : Process π ι) (x : ι) (free : io.manager = none) :
    Untouched x (s.setIo x io).watched (s.setIo x io).watched := by
  have self : (s.setIo x io).watched.procs.ios x = io := process_set_self
  exact ⟨rfl, rfl, fun _ _ => rfl, rfl, rfl, (congrArg Io.manager self).trans free⟩

theorem marked_fate {GivesBack : Prop} (reported : Option CtlResult) {after : Watched π ι}
    (untouched : Untouched x (s.setIo x io).watched after) (deleted : Bool)
    (gives : (after.procs.ios x).valid = true ∧ io.kind = .tcp ↔ GivesBack) :
    Fate p x io.fd reported GivesBack s (.refused, Process.destroy
      { s.setIo x io with watched := after.markInvalid x deleted } x) := by
  obtain ⟨marked, valid⟩ := mark_invalid_untouched untouched.manager deleted
  have kind := untouched.kind
  rw [show (s.setIo x io).watched.procs.ios x = io from process_set_self] at kind
  rw [kind] at valid
  exact ended_fate _ (untouched_trans untouched marked) (valid.trans gives)

/-- Whatever the registries hold and the system calls report: a new instance that
`create_io_in_eventloop` hands out is registered, or `epoll` does not know its kind of
file. Where it hands out none no registry remembers the instance, and the descriptor
stays open unless it is that of a tcp. -/
theorem create_io_fate (s : Process π ι) (p : π) (x : ι) {io : Io π} (free : io.manager = none)
    (running : Bool) (first second : CtlResult) (deleted : Bool) :
    Fate p x io.fd (report (s.setIo x io).watched p x running first second)
      (io.valid = true ∧ io.kind = .tcp) s (s.createIo p x io running first second deleted) := by
  have self : (s.setIo x io).watched.procs.ios x = io := process_set_self
  by_cases isOpen : io.IsOpen
  · have alive : io.kind = .tcp → ¬Final io.status := by
      intro kind
      rwa [Io.IsOpen, kind] at isOpen
    have added := new_added s p x free alive running first second deleted
    rcases called : (s.setIo x io).watched.addIo p x running first second deleted with
      ⟨result, after⟩
    rw [called] at added
    cases result with
    | returned value =>
        cases value with
        | true =>
            have answer : s.createIo p x io running first second deleted =
                (.made, { s.setIo x io with watched := after }) := by
              rw [Process.createIo, if_pos isOpen, called]
            rw [answer]
            exact made_fate _ added
        | false =>
            have failed : Result.returned false ≠ .returned true := by simp
            have answer : s.createIo p x io running first second deleted =
                (.refused, Process.destroy
                  { s.setIo x io with watched := after.markInvalid x deleted } x) := by
              rw [Process.createIo, if_pos isOpen, called]
            have valid := added.valid failed
            rw [self] at valid
            rw [answer]
            refine marked_fate _ (added.untouched failed) deleted ?_
            rw [valid]
            -- What EBADF makes invalid is no tcp.
            refine ⟨fun both => ⟨both.1.1, both.2⟩, fun both => ⟨⟨both.1, fun bad => ?_⟩, both.2⟩⟩
            cases both.2.symm.trans bad.2
    | thrown what =>
        have answer : s.createIo p x io running first second deleted =
            (.terminated what, { s.setIo x io with watched := after }) := by
          rw [Process.createIo, if_pos isOpen, called]
        rw [answer]
        exact terminated_fate _ added
  · have answer : s.createIo p x io running first second deleted =
        (.refused, Process.destroy
          { s.setIo x io with watched := (s.setIo x io).watched.markInvalid x deleted } x) := by
      rw [Process.createIo, if_neg isOpen]
    rw [answer]
    refine marked_fate _ (untouched_new s x free) deleted ?_
    rw [self]

/-- One processor whose epoll descriptor is 3, and nothing in it; 5 is open. -/
def idleProcess : Process Unit Bool where
  watched := {
    procs := {
      epfd := fun _ => 3
      ioMap := fun _ _ => none
      ios := fun _ => newTcp (-1) }
    epoll := fun _ _ => false }
  opened fd := decide (fd = 3 ∨ fd = 5)

/-- `EPOLL_CTL_ADD` fails for a plain io, and its descriptor is open for ever. -/
example : (idleProcess.createIo () true (newIo .plain 5 true true true true true .initializing) true
    .failed .failed true).2.opened 5 = true := by decide

omit [DecidableEq π] in
theorem new_acceptor_fields (fd : Int) (fcntl : Bool) :
    (newAcceptor fd fcntl : Io π).kind = .plain ∧ (newAcceptor fd fcntl : Io π).fd = fd ∧
      (newAcceptor fd fcntl : Io π).manager = none ∧
      ((newAcceptor fd fcntl : Io π).valid = true ↔ 0 < fd ∧ fcntl = true) := by
  unfold newAcceptor newIo
  dsimp only
  by_cases failed : fd ≤ 0
  · rw [if_pos failed]
    exact ⟨rfl, rfl, rfl, iff_of_false nofun (fun both => absurd both.1 (Int.not_lt.mpr failed))⟩
  · rw [if_neg failed]
    refine ⟨rfl, rfl, rfl, ?_⟩
    rw [Bool.and_eq_true, decide_eq_true_iff, Bool.false_or]
    exact and_congr_left fun _ => ⟨fun _ => Int.not_le.mp failed, Int.le_of_lt⟩

/-- `start_accept` leaves out `mark_invalid` where `add_io` fails, and so the acceptor's
descriptor is closed there, and stays open where `bind` or `listen` fails. -/
theorem create_acceptor_fate (s : Process π ι) (p : π) (x : ι) (fd : Int)
    (fcntl binds listens running : Bool) (first second : CtlResult) (deleted : Bool) :
    Fate p x fd (report (s.setIo x (newAcceptor fd fcntl)).watched p x running first second)
      ((0 < fd ∧ fcntl = true) ∧ binds = true ∧ listens = true ∧
        report (s.setIo x (newAcceptor fd fcntl)).watched p x running first second ≠ some .ebadf)
      s (s.createAcceptor p x (newAcceptor fd fcntl) binds listens running first second
        deleted) := by
  obtain ⟨kind, sameFd, free, valid⟩ := new_acceptor_fields (π := π) fd fcntl
  rw [← valid]
  generalize newAcceptor fd fcntl = io at kind sameFd free
  rw [← sameFd]
  have self : (s.setIo x io).watched.procs.ios x = io := process_set_self
  by_cases starts : (binds && listens) = true
  · have both : binds = true ∧ listens = true := Bool.and_eq_true_iff.mp starts
    have added := new_added s p x free (fun tcp => nomatch kind.symm.trans tcp) running first second
      deleted
    -- What is given back is the same wherever `add_io` does not take the acceptor.
    have gives : io.valid = true ∧ ¬(report (s.setIo x io).watched p x running first second =
        some .ebadf ∧ io.kind = .plain) ↔ io.valid = true ∧ binds = true ∧ listens = true ∧
        report (s.setIo x io).watched p x running first second ≠ some .ebadf := by
      simp [kind, both]
    rcases called : (s.setIo x io).watched.addIo p x running first second deleted with
      ⟨result, after⟩
    rw [called] at added
    cases result with
    | returned value =>
        cases value with
        | true =>
            have answer : s.createAcceptor p x io binds listens running first second deleted =
                (.made, { s.setIo x io with watched := after }) := by
              rw [Process.createAcceptor, if_pos starts, called]
            rw [answer]
            exact made_fate _ added
        | false =>
            have failed : Result.returned false ≠ .returned true := nofun
            have answer : s.createAcceptor p x io binds listens running first second deleted =
                (.refused, Process.destroy { s.setIo x io with watched := after } x) := by
              rw [Process.createAcceptor, if_pos starts, called]
            have valid := added.valid failed
            rw [self] at valid
            rw [answer]
            exact ended_fate _ (added.untouched failed) (valid.trans gives)
    | thrown what =>
        have answer : s.createAcceptor p x io binds listens running first second deleted =
            (.terminated what, { s.setIo x io with watched := after }) := by
          rw [Process.createAcceptor, if_pos starts, called]
        rw [answer]
        exact terminated_fate _ added
  · have answer : s.createAcceptor p x io binds listens running first second deleted =
        (.refused, Process.destroy
          { s.setIo x io with watched := (s.setIo x io).watched.markInvalid x deleted } x) := by
      rw [Process.createAcceptor, if_neg starts]
    rw [answer]
    refine marked_fate _ (untouched_new s x free) deleted ?_
    constructor
    · rintro ⟨_, tcp⟩
      exact nomatch kind.symm.trans tcp
    · rintro ⟨_, binds, listens, _⟩
      exact absurd (Bool.and_eq_true_iff.mpr ⟨binds, listens⟩) starts

end Fates

end Npoller.IoCreation
