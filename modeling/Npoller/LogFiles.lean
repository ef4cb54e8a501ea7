import Mathlib.Data.List.Nodup
import Npoller.LogReopening
import Npoller.Monitor

/-!
`internal_logger`, the log file behind all handles of a logger that was constructed with
a name: any number of threads print formats and texts to it. The time, the state of the file and the test before
`reopen_if_need` are read without the mutex; the file is closed, opened and written
under it. The print of a text is under it as a whole. Results of writes are left
open, as are the locals that nothing assigns.
-/

namespace Npoller.LogFiles

open LogRotation LogReopening Monitor StepSystem

variable {τ : Type} [DecidableEq τ]

structure Config where
  nameStrategy : LogTimeStrategy
  logStrategy : LogTimeStrategy

/-- The files are numbered as `fopen` returned them, with the time each was opened at.
`fp` is `none` for the null pointer; it keeps the pointer of a file just closed. -/
structure LogFile where
  fp : Option Nat
  state : FileState
  nameTime : LogTime
  born : List LocalTime
  closed : List Nat
  failed : Nat

/-- What a step finds: the overload that is called, the clock, what an unassigned local
holds, whether `fopen` succeeds, whether a write reports success, and `EBADF` after it. -/
structure Answer where
  text : Bool
  clock : LocalTime
  unassigned : Bool
  opens : Bool
  succ : Bool
  ebadf : Bool

/-- Which `reopen_if_need` is running. -/
inductive Caller where
  | formatFirst
  | formatLast
  | textFirst
  | textLast
  deriving DecidableEq, Repr

/-- Where a thread is that does not hold the mutex; `last` is the call after a failure. -/
inductive Outside where
  | idle
  | loadInit
  | loadEqual
  | reopenIfNeed (needReopen last : Bool)
  | lockReopen (needReopen last : Bool)
  | checkState
  | lockWrite
  | lockText
  deriving DecidableEq, Repr

inductive Inside where
  | textTime
  | textCheck
  | textWrite
  | write
  | reopen (needReopen : Bool) (caller : Caller)
  | openFile (caller : Caller)
  | storeState (opened : Option LogTime) (caller : Caller)
  | storeName (now : LogTime) (caller : Caller)
  | unlock (next : Outside)
  deriving DecidableEq

/-- `need_rename` after `time`, when `name_time` has been loaded as initialised. -/
def needRename (config : Config) (nameTime : LogTime) (answer : Answer) : Bool :=
  if !nameTime.equal config.nameStrategy (setVal answer.clock) then true else answer.unassigned

/-- The steps outside the mutex read `state` and `name_time`, which are atomic. -/
def look (config : Config) (o : Outside) (answer : Answer) (file : LogFile) : Outside :=
  match o with
  | .idle => if answer.text then .lockText else .loadInit
  | .loadInit =>
      if config.logStrategy = .no then .reopenIfNeed answer.unassigned false
      else if file.nameTime.isInit then .reopenIfNeed false false
      else .loadEqual
  | .loadEqual => .reopenIfNeed (needRename config file.nameTime answer) false
  | .reopenIfNeed needReopen last =>
      if needReopen = true ∨ file.state = .nonAssociated then .lockReopen needReopen last
      else if last then .idle
      else .checkState
  | .checkState => if file.state = .opened then .lockWrite else .reopenIfNeed true true
  | other => other

def enter : Outside → Option Inside
  | .lockReopen needReopen last =>
      some (.reopen needReopen (if last then .formatLast else .formatFirst))
  | .lockWrite => some .write
  | .lockText => some .textTime
  | _ => none

def Caller.next : Caller → Inside
  | .formatFirst => .unlock .checkState
  | .formatLast | .textLast => .unlock .idle
  | .textFirst => .textCheck

/-- `::fclose(fp)` of a pointer that is not null. -/
def LogFile.fclose (file : LogFile) : LogFile :=
  match file.fp with
  | some id => { file with closed := file.closed ++ [id] }
  | none => file

/-- `fp = fopen(file_name, "a+")` -/
def LogFile.fopen (file : LogFile) (clock : LocalTime) (opens : Bool) : LogFile :=
  if opens then { file with fp := some file.born.length, born := file.born ++ [clock] }
  else { file with fp := none, failed := file.failed + 1 }

/-- `int simple_logger::fclose()` -/
def LogFile.fcloseNull (file : LogFile) : LogFile := { file.fclose with fp := none }

/-- The file, and how often the string `name` has been destroyed. -/
structure Remains where
  file : LogFile
  nameDestroyed : Nat

/-- `~simple_logger`: its body and then its members. -/
def Remains.destroySimple (r : Remains) : Remains := ⟨r.file.fcloseNull, r.nameDestroyed + 1⟩

/-- `~internal_logger` calls `~simple_logger`, which the end of the base class runs again. -/
def LogFile.destroyed (file : LogFile) : Remains :=
  (Remains.destroySimple ⟨file, 0⟩).destroySimple

def work (config : Config) (i : Inside) (answer : Answer) (file : LogFile) : Inside × LogFile :=
  match i with
  | .textTime =>
      (.reopen (if config.logStrategy = .no then answer.unassigned
        else if file.nameTime.isInit then false
        else needRename config file.nameTime answer) .textFirst, file)
  | .textCheck =>
      (if file.state = .opened then .textWrite
        else if answer.unassigned then .unlock .idle
        else .reopen true .textLast, file)
  | .textWrite => (if answer.succ then .unlock .idle else .reopen true .textLast, file)
  | .write =>
      (.unlock (if answer.succ then .idle else .reopenIfNeed true true),
        if answer.ebadf then { file with state := .badFileDescriptor } else file)
  | .reopen needReopen caller =>
      if needReopen = true ∨ file.state ≠ .opened then (.openFile caller, file.fclose)
      else (caller.next, file)
  | .openFile caller =>
      (.storeState (if answer.opens then some (time config.nameStrategy answer.clock).2 else none)
        caller, file.fopen answer.clock answer.opens)
  | .storeState (some now) caller => (.storeName now caller, { file with state := .opened })
  | .storeState none caller => (caller.next, { file with state := .nonAssociated })
  | .storeName now caller => (caller.next, { file with nameTime := now })
  | .unlock next => (.unlock next, file)

def exit : Inside → Option Outside
  | .unlock next => some next
  | _ => none

def program (config : Config) : Program LogFile Outside Inside Answer :=
  ⟨look config, enter, work config, exit⟩

/-- The constructor that takes a name has run `open_file` before any handle exists. The one
without arguments opens nothing and leaves `fp` unassigned under the state `open`. -/
def constructed (config : Config) (file : LogFile) : Prop :=
  ∃ clock opens, file =
    let opened := LogFile.fopen ⟨none, .nonAssociated, LogTime.new, [], [], 0⟩ clock opens
    if opens then { opened with
      state := .opened, nameTime := (time config.nameStrategy clock).2 }
    else opened

def logSystem (τ : Type) [DecidableEq τ] (config : Config) :
    System (State τ LogFile Outside Inside) (τ × Answer) :=
  monitorSystem τ (program config) (constructed config) .idle

section Files
variable {config : Config} {file : LogFile}

/-- Each file that was opened is closed or the one `fp` points to. -/
structure Accounted (file : LogFile) : Prop where
  once : file.closed.Nodup
  known : ∀ id ∈ file.closed, id < file.born.length
  kept : ∀ id, id < file.born.length → id ∈ file.closed ∨ file.fp = some id
  named : ∀ id, file.fp = some id → id < file.born.length

/-- `fp` points to an open file, which was opened when `now` was its name's time. -/
def Live (config : Config) (now : LogTime) (file : LogFile) : Prop :=
  ∃ id clock, file.fp = some id ∧ id ∉ file.closed ∧ file.born[id]? = some clock ∧
    now = (time config.nameStrategy clock).2

/-- The file between two uses: `fp` is null only after `fopen` failed, and the state
`open` means what it says. -/
structure Settled (config : Config) (file : LogFile) : Prop where
  accounted : Accounted file
  live : file.fp ≠ none → Live config file.nameTime file
  opened : file.state = .opened → file.fp ≠ none
  lost : file.fp = none → 0 < file.failed

def Shape (config : Config) (i : Inside) (file : LogFile) : Prop :=
  match i with
  | .textWrite => Settled config file ∧ file.state = .opened
  | .openFile _ => Accounted file ∧ ∀ id, id < file.born.length → id ∈ file.closed
  | .storeState (some now) _ | .storeName now _ => Accounted file ∧ Live config now file
  | .storeState none _ => Accounted file ∧ file.fp = none ∧ 0 < file.failed
  | _ => Settled config file

theorem accounted_fclose (accounted : Accounted file)
    (live : ∀ id, file.fp = some id → id ∉ file.closed) :
    Accounted file.fclose ∧ ∀ id, id < file.fclose.born.length → id ∈ file.fclose.closed := by
  unfold LogFile.fclose
  cases at_ : file.fp with
  | none =>
      refine ⟨accounted, fun id old => ?_⟩
      rcases accounted.kept id old with isClosed | current
      · exact isClosed
      · rw [at_] at current
        cases current
  | some id =>
      have old := accounted.named id at_
      have all : ∀ other, other < file.born.length → other ∈ file.closed ++ [id] := by
        intro other known
        rcases accounted.kept other known with isClosed | current
        · exact List.mem_append_left _ isClosed
        · rw [at_] at current
          cases current
          exact List.mem_append_right _ (List.mem_singleton_self _)
      refine ⟨⟨?_, ?_, fun other known => .inl (all other known), ?_⟩, all⟩
      · have fresh := live id at_
        rw [List.nodup_append]
        refine ⟨accounted.once, List.nodup_singleton _, ?_⟩
        rintro other isClosed _ (last | ⟨_, ⟨⟩⟩) same
        exact fresh (same ▸ isClosed)
      · intro other member
        rcases List.mem_append.mp member with isClosed | last
        · exact accounted.known other isClosed
        · rw [List.mem_singleton.mp last]
          exact old
      · rintro other ⟨⟩
        exact old

theorem accounted_fopen (accounted : Accounted file) (clock : LocalTime)
    (all : ∀ id, id < file.born.length → id ∈ file.closed) :
    Accounted (file.fopen clock true) ∧
      Live config (time config.nameStrategy clock).2 (file.fopen clock true) := by
  have fresh : file.born.length ∉ file.closed := by
    intro isClosed
    exact Nat.lt_irrefl _ (accounted.known _ isClosed)
  have length : (file.born ++ [clock]).length = file.born.length + 1 := List.length_append
  refine ⟨⟨accounted.once, ?_, ?_, ?_⟩, file.born.length, clock, rfl, fresh, ?_, rfl⟩
  · intro id isClosed
    exact Nat.lt_of_lt_of_eq (Nat.lt_succ_of_lt (accounted.known id isClosed)) length.symm
  · intro id known
    rcases Nat.lt_succ_iff_lt_or_eq.mp (Nat.lt_of_lt_of_eq known length) with old | rfl
    · exact .inl (all id old)
    · exact .inr rfl
  · rintro id ⟨⟩
    exact Nat.lt_of_lt_of_eq (Nat.lt_succ_self _) length.symm
  · exact List.getElem?_concat_length

theorem accounted_lost (accounted : Accounted file) (clock : LocalTime)
    (all : ∀ id, id < file.born.length → id ∈ file.closed) :
    Accounted (file.fopen clock false) :=
  ⟨accounted.once, accounted.known, fun id known => .inl (all id known), nofun⟩

theorem live_not_closed {now : LogTime} (live : file.fp ≠ none → Live config now file) :
    ∀ id, file.fp = some id → id ∉ file.closed := by
  intro id at_
  obtain ⟨other, _, found, isOpen, _⟩ := live (by rw [at_]; nofun)
  rw [at_] at found
  cases found
  exact isOpen

theorem settled_renamed {now : LogTime} (accounted : Accounted file) (live : Live config now file) :
    Settled config { file with nameTime := now } := by
  obtain ⟨id, clock, at_, isOpen, born, same⟩ := live
  have some_ : file.fp ≠ none := by
    rw [at_]
    nofun
  refine ⟨⟨accounted.once, accounted.known, accounted.kept, accounted.named⟩, ?_,
    fun _ => some_, ?_⟩
  · intro _
    exact ⟨id, clock, at_, isOpen, born, same⟩
  · intro none_
    exact absurd none_ some_

theorem settled_lost (accounted : Accounted file) (none_ : file.fp = none)
    (lost : 0 < file.failed) : Settled config { file with state := .nonAssociated } :=
  ⟨⟨accounted.once, accounted.known, accounted.kept, accounted.named⟩,
    fun some_ => absurd none_ some_, nofun, fun _ => lost⟩

theorem settled_bad (settled : Settled config file) :
    Settled config { file with state := .badFileDescriptor } :=
  ⟨⟨settled.accounted.once, settled.accounted.known, settled.accounted.kept,
    settled.accounted.named⟩, settled.live, nofun, settled.lost⟩

theorem settled_next (settled : Settled config file) (caller : Caller) :
    Shape config caller.next file := by
  cases caller <;> exact settled

theorem constructed_settled (begins : constructed config file) : Settled config file := by
  obtain ⟨clock, opens, rfl⟩ := begins
  have empty : Accounted ⟨none, .nonAssociated, LogTime.new, [], [], 0⟩ :=
    ⟨List.nodup_nil, nofun, nofun, nofun⟩
  have all : ∀ id, id < ([] : List LocalTime).length → id ∈ ([] : List Nat) := nofun
  cases opens with
  | true =>
      have both : Accounted _ ∧ Live config _ _ := accounted_fopen empty clock all
      obtain ⟨accounted, live⟩ := both
      have renamed := settled_renamed accounted live
      exact ⟨⟨accounted.once, accounted.known, accounted.kept, accounted.named⟩, renamed.live,
        fun _ => nofun, renamed.lost⟩
  | false =>
      exact ⟨accounted_lost empty clock all, fun some_ => absurd rfl some_, nofun,
        fun _ => Nat.succ_pos _⟩

theorem work_keeps (i : Inside) (answer : Answer) (shape : Shape config i file) :
    Shape config (work config i answer file).1 (work config i answer file).2 := by
  cases i with
  | textTime => exact shape
  | textCheck =>
      rw [work]
      split
      · rename_i opened
        exact ⟨shape, opened⟩
      · split <;> exact shape
  | textWrite =>
      rw [work]
      split <;> exact shape.1
  | write =>
      have kept : Settled config
          (if answer.ebadf then { file with state := .badFileDescriptor } else file) := by
        split
        · exact settled_bad shape
        · exact shape
      exact kept
  | reopen needReopen caller =>
      rw [work]
      split
      · exact accounted_fclose shape.accounted (live_not_closed shape.live)
      · exact settled_next shape caller
  | openFile caller =>
      obtain ⟨accounted, all⟩ := shape
      rw [work]
      cases answer.opens with
      | true => exact accounted_fopen accounted answer.clock all
      | false => exact ⟨accounted_lost accounted answer.clock all, rfl, Nat.succ_pos _⟩
  | storeState opened caller =>
      cases opened with
      | some now =>
          obtain ⟨accounted, live⟩ := shape
          exact ⟨⟨accounted.once, accounted.known, accounted.kept, accounted.named⟩, live⟩
      | none => exact settled_next (settled_lost shape.1 shape.2.1 shape.2.2) caller
  | storeName now caller => exact settled_next (settled_renamed shape.1 shape.2) caller
  | unlock next => exact shape

theorem log_rules :
    Rules (program config) (constructed config) (Settled config) (Shape config) := by
  refine ⟨fun _ begins => constructed_settled begins, ?_, ?_, ?_⟩
  · intro o i data enters settled
    cases o <;> cases enters <;> exact settled
  · intro i answer data shape
    exact work_keeps i answer shape
  · intro i o data exits shape
    cases i <;> cases exits
    exact shape

end Files

section Results
variable {config : Config} {s : State τ LogFile Outside Inside}

/-- What all threads can rely on. -/
structure FilesKept (config : Config) (s : State τ LogFile Outside Inside) : Prop where
  once : s.data.closed.Nodup
  kept : ∀ id, id < s.data.born.length → id ∈ s.data.closed ∨ s.data.fp = some id
  alone : ∀ t u i j, s.place t = .inside i → s.place u = .inside j → t = u
  opened : s.holder = none → s.data.state = .opened → Live config s.data.nameTime s.data
  text : ∀ t, s.place t = .inside .textWrite → Live config s.data.nameTime s.data
  format : ∀ t, s.place t = .inside .write →
    Live config s.data.nameTime s.data ∨ (s.data.fp = none ∧ 0 < s.data.failed)

theorem log_guarded (reached : Reachable (logSystem τ config) s) :
    Guarded (Settled config) (Shape config) s := monitor_guards log_rules reached

/-- However many threads print: no file is closed twice or forgotten, none is used after
it was closed, whoever finds the mutex free and the state `open` finds an open file with
the name of the stored time, and so does each text that is written. A format may be
written to the null pointer, but only after `fopen` has failed. -/
theorem log_files_kept (reached : Reachable (logSystem τ config) s) : FilesKept config s := by
  have guarded := log_guarded reached
  have accounted : Accounted s.data := by
    cases holder : s.holder with
    | none => exact (guarded.free holder).accounted
    | some t =>
        obtain ⟨i, inside⟩ := (guarded.held t).mp holder
        have shape := guarded.busy t i inside
        cases i with
        | textWrite => exact shape.1.accounted
        | openFile _ => exact shape.1
        | storeState opened _ => cases opened <;> exact shape.1
        | storeName _ _ => exact shape.1
        | _ => exact shape.accounted
  constructor
  · exact accounted.once
  · exact accounted.kept
  · intro t u i j here there
    by_contra apart
    exact other_outside guarded here (Ne.symm apart) there
  · intro free opened
    have settled := guarded.free free
    exact settled.live (settled.opened opened)
  · intro t inside
    obtain ⟨settled, opened⟩ := guarded.busy t .textWrite inside
    exact settled.live (settled.opened opened)
  · intro t inside
    have settled : Settled config s.data := guarded.busy t .write inside
    by_cases none_ : s.data.fp = none
    · exact .inr ⟨none_, settled.lost none_⟩
    · exact .inl (settled.live none_)

theorem destroyed_closed (file : LogFile) : file.destroyed.file.closed = file.fclose.closed := rfl

/-- When no print is running any more, the destructor leaves every file that was ever
opened closed exactly once, since its second `fclose` finds the null pointer. But it runs
all of `~simple_logger` twice, and the string `name` is destroyed a second time. -/
theorem destroyed_closes_all (reached : Reachable (logSystem τ config) s)
    (quiet : ∀ t, s.place t = .outside .idle) :
    s.data.destroyed.file.closed.Perm (List.range s.data.born.length) ∧
      s.data.destroyed.nameDestroyed = 2 := by
  have guarded := log_guarded reached
  have free : s.holder = none := by
    cases holder : s.holder with
    | none => rfl
    | some t =>
        obtain ⟨i, inside⟩ := (guarded.held t).mp holder
        rw [quiet t] at inside
        cases inside
  have settled := guarded.free free
  obtain ⟨accounted, all⟩ := accounted_fclose settled.accounted (live_not_closed settled.live)
  have born : s.data.fclose.born = s.data.born := by
    unfold LogFile.fclose
    split <;> rfl
  rw [born] at all
  refine ⟨?_, rfl⟩
  rw [destroyed_closed, List.perm_ext_iff_of_nodup accounted.once List.nodup_range]
  intro id
  rw [List.mem_range]
  constructor
  · intro isClosed
    have known := accounted.known id isClosed
    rwa [born] at known
  · exact all id

theorem log_progresses (reached : Reachable (logSystem τ config) s) (t : τ) :
    ∃ u, (u = t ∨ ∃ i, s.place u = .inside i) ∧
      ∀ answer, (run (program config) s u answer).isSome := monitor_progresses log_rules reached t

end Results

section Samples

def daily : Config := ⟨.day, .millisecond⟩

def monday : LocalTime :=
  { tmYear := 120, tmMon := 5, tmMday := 8, tmHour := 9, tmMin := 0, tmSec := 0, tvUsec := 0
    mon := by decide, mday := by decide, hour := by decide, min := Nat.succ_pos _
    sec := Nat.succ_pos _, usec := Nat.succ_pos _ }

def tuesday : LocalTime := { monday with tmMday := 9, mday := by decide }

def fine (clock : LocalTime) : Answer := ⟨false, clock, false, true, true, false⟩

def sampleLog : State Bool LogFile Outside Inside :=
  ⟨⟨some 0, .opened, setVal monday, [monday], [], 0⟩, none, fun _ => .outside .idle⟩

theorem sample_log_starts : (logSystem Bool daily).init sampleLog :=
  ⟨⟨monday, true, rfl⟩, rfl, fun _ => rfl⟩

/-- One thread has seen the file open when another one fails to open the next day's. -/
def lateWrite : List (Bool × Answer) :=
  List.replicate 5 (true, fine monday) ++
  List.replicate 6 (false, fine tuesday) ++
  List.replicate 3 (false, { fine tuesday with opens := false }) ++
  [(true, fine tuesday)]

theorem log_files_kept_late_write : ∃ s : State Bool LogFile Outside Inside,
    s.place true = .inside .write ∧ s.data.fp = none ∧ FilesKept daily s := by
  have steps : ∀ (before : State Bool LogFile Outside Inside) (label : Bool × Answer) after,
      run (program daily) before label.1 label.2 = some after →
        True ∧ (logSystem Bool daily).step before label after := fun _ _ _ moved => ⟨trivial, moved⟩
  obtain ⟨s, ran, at_, none_⟩ : ∃ s : State Bool LogFile Outside Inside,
      lateWrite.foldlM (fun s label => run (program daily) s label.1 label.2) sampleLog = some s ∧
        s.place true = .inside .write ∧ s.data.fp = none := ⟨_, rfl, rfl, rfl⟩
  have reached : Reachable (logSystem Bool daily) s :=
    fold_reachable steps (.start sample_log_starts) ran
  exact ⟨s, at_, none_, log_files_kept reached⟩

theorem destroyed_closes_all_sample :
    sampleLog.data.destroyed.file.closed.Perm (List.range 1) ∧
      sampleLog.data.destroyed.nameDestroyed = 2 :=
  destroyed_closes_all (.start sample_log_starts) (fun _ => rfl)

end Samples

end Npoller.LogFiles
