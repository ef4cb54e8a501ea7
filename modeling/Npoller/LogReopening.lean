import Mathlib.Data.List.TakeWhile
import Npoller.LogRotation
import Npoller.SizeT

/-!
`simple_logger::print` and its reopening of the log file. `time` decides in its output
parameter `need_rename`, which `print` leaves uninitialised before the call, and assigns
it on some paths only. The overload for a text leaves `write_success` uninitialised too.
The locks of `internal_logger` and the buffer of the format are left out.
-/

namespace Npoller.LogReopening

open LogRotation SizeT

/-- `enum file_state`; `opened` is its `open`. -/
inductive FileState where
  | opened
  | nonAssociated
  | badFileDescriptor
  deriving DecidableEq, Repr

/-- `fp` says whether the pointer is not null. -/
structure SimpleLogger where
  name : List Char
  nameStrategy : LogTimeStrategy
  logStrategy : LogTimeStrategy
  isSync : Bool
  nameTime : LogTime
  state : FileState
  fp : Bool
  valid : state = .opened → fp = true

/-- `reopen_if_need` is virtual. -/
inductive Kind where
  | simpleLogger
  | internalLogger
  deriving DecidableEq, Repr

inductive FileCall where
  | fclose
  | fopen (fileName : List Char)
  | write (line : List Char)
  | fflush
  deriving DecidableEq, Repr

def FileCall.Reopens : FileCall → Prop
  | .fclose | .fopen _ => True
  | .write _ | .fflush => False

structure Run where
  logger : SimpleLogger
  calls : List FileCall

def Run.call (call : FileCall) (run : Run) : Run := { run with calls := run.calls ++ [call] }

structure Opening where
  now : LocalTime
  opens : Bool

/-- What the calls of one `print` answer: `written` is the `int` of `vfprintf` or
`fprintf`, and `ebadf` says whether `errno` is `EBADF` after it. -/
structure Answers where
  now : LocalTime
  first : Opening
  last : Opening
  written : Int
  flushed : Int
  ebadf : Bool
  int : -2147483648 ≤ written ∧ written < 2147483648

/-- `std::string time(log_time_strategy, log_time &now)`, with what `now` holds after it. -/
def time (strategy : LogTimeStrategy) (clock : LocalTime) : List Char × LogTime :=
  if strategy = .no then ([], LogTime.new) else (clock.render strategy, setVal clock)

/-- `std::string time(log_time_strategy, bool &need_rename)`, with what `need_rename`
holds after it. -/
def SimpleLogger.time (this : SimpleLogger) (strategy : LogTimeStrategy) (clock : LocalTime)
    (needRename : Bool) : List Char × Bool :=
  if strategy = .no then ([], needRename)
  else
    (clock.render strategy,
      if this.nameTime.isInit then false
      else if !this.nameTime.equal this.nameStrategy (setVal clock) then true
      else needRename)

def SimpleLogger.setFileState (this : SimpleLogger) (state : FileState)
    (valid : state = .opened → this.fp = true) : SimpleLogger := { this with state, valid }

def Run.openFile (opening : Opening) (run : Run) : Run :=
  let (timeStr, now) := LogReopening.time run.logger.nameStrategy opening.now
  let fileName := run.logger.name ++ timeStr ++ ['.', 'l', 'o', 'g']
  { calls := run.calls ++ [.fopen fileName]
    logger :=
      if opening.opens then
        { run.logger with fp := true, state := .opened, nameTime := now, valid := fun _ => rfl }
      else
        { run.logger with
          fp := false, state := .nonAssociated, valid := fun other => by cases other } }

/-- `void simple_logger::reopen_if_need(bool)` -/
def Run.reopen (opening : Opening) (needReopen : Bool) (run : Run) : Run :=
  if needReopen = true ∨ run.logger.state ≠ .opened then
    (if run.logger.fp then run.call .fclose else run).openFile opening
  else run

/-- `reopen_if_need` of either class. -/
def Run.reopenIfNeed (opening : Opening) (needReopen : Bool) (run : Run) : Kind → Run
  | .simpleLogger => run.reopen opening needReopen
  | .internalLogger =>
      if needReopen = true ∨ run.logger.state = .nonAssociated then run.reopen opening needReopen
      else run

/-- The constructor: `open_file` is the first to set the state of the file. -/
def SimpleLogger.new (name : List Char) (sync : Bool) (nameStrategy logStrategy : LogTimeStrategy)
    (opening : Opening) : SimpleLogger :=
  let this : SimpleLogger :=
    { name, nameStrategy, logStrategy, isSync := sync, nameTime := LogTime.new
      state := .nonAssociated, fp := false, valid := fun other => by cases other }
  (Run.openFile opening ⟨this, []⟩).logger

def Run.vfprintf (answers : Answers) (format : List Char) (run : Run) : Bool × Run :=
  let written := run.call (.write format)
  let succ := decide (0 < answers.written)
  let (succ, run) :=
    if run.logger.isSync then (succ && answers.flushed == 0, written.call .fflush)
    else (succ, written)
  if answers.ebadf then
    let logger := run.logger.setFileState .badFileDescriptor fun other => by cases other
    (succ, { run with logger })
  else (succ, run)

def newFormatStr (fmt timeStr level : List Char) : List Char := timeStr ++ level ++ fmt ++ ['\n']

/-- What `%s` prints of a string. -/
def cStr (text : List Char) : List Char := text.takeWhile (· ≠ '\x00')

/-- An `int` as a `size_t`. -/
def asSize (count : Int) : Nat := (count % (wordSize : Int)).toNat

/-- The block of `print` under `load_file_state() == open`, for a format. -/
def Run.writeFormat (answers : Answers) (timeStr level format : List Char) (run : Run) :
    Bool × Run :=
  if run.logger.state = .opened then run.vfprintf answers (newFormatStr format timeStr level)
  else (false, run)

def textLine (timeStr level text : List Char) : List Char := timeStr ++ level ++ cStr text ++ ['\n']

/-- The same block for a text, with what `write_success` holds before it. -/
def Run.writeText (answers : Answers) (timeStr level text : List Char) (writeSuccess : Bool)
    (run : Run) : Bool × Run :=
  if run.logger.state = .opened then
    let written := run.call (.write (textLine timeStr level text))
    let writeSuccess := writeSuccess &&
      decide (asSize answers.written ≥ timeStr.length + level.length + text.length + 1)
    if run.logger.isSync then (writeSuccess && answers.flushed == 0, written.call .fflush)
    else (writeSuccess, written)
  else (writeSuccess, run)

/-- The order of both overloads: reopen if need be, write, and reopen after a failure. -/
def SimpleLogger.printBy (this : SimpleLogger) (kind : Kind) (answers : Answers) (needRename : Bool)
    (write : Run → Bool × Run) : Run :=
  let (writeSuccess, run) := write (Run.reopenIfNeed answers.first needRename ⟨this, []⟩ kind)
  if !writeSuccess then run.reopenIfNeed answers.last true kind else run

/-- What the uninitialised locals hold; a format has no use for `writeSuccess`. -/
structure Locals where
  needRename : Bool
  writeSuccess : Bool

inductive Line where
  | format (format : List Char)
  | text (text : List Char)

/-- `print` of a format calls the `reopen_if_need` of the object, that of a text the one of
`simple_logger`. -/
def SimpleLogger.print (this : SimpleLogger) (kind : Kind) (answers : Answers) (locals : Locals)
    (level : List Char) (line : Line) : Run :=
  let (timeStr, needRename) := this.time this.logStrategy answers.now locals.needRename
  match line with
  | .format format =>
      this.printBy kind answers needRename (Run.writeFormat answers timeStr level format)
  | .text text =>
      this.printBy .simpleLogger answers needRename
        (Run.writeText answers timeStr level text locals.writeSuccess)

/-- The file is left open and never opened anew. -/
def Quiet (calls : List FileCall) : Prop := ∀ call ∈ calls, ¬call.Reopens

/-- The write reports the whole line, and the flush no error. -/
structure Succeeds (this : SimpleLogger) (answers : Answers) (level : List Char) (line : Line) :
    Prop where
  format : ∀ format, line = .format format → 0 < answers.written
  text : ∀ text, line = .text text →
    answers.written = (textLine (time this.logStrategy answers.now).1 level text).length
  flushed : answers.flushed = 0

/-- A file that has the name of the present period stays open, and one that has not is
opened anew before the line is written. -/
structure Steady (this : SimpleLogger) (kind : Kind) (answers : Answers) (locals : Locals)
    (level : List Char) (line : Line) : Prop where
  quiet : this.nameTime.equal this.nameStrategy (setVal answers.now) = true →
    Quiet (this.print kind answers locals level line).calls
  renamed : this.nameTime.isInit = false →
    this.nameTime.equal this.nameStrategy (setVal answers.now) = false →
    (this.time this.logStrategy answers.now locals.needRename).2 = true ∧
      ∃ fileName rest, (this.print kind answers locals level line).calls =
        .fclose :: .fopen fileName :: rest

/-- Where `time` or the write does not assign a local, the local holds the right value. -/
structure LocalsFit (this : SimpleLogger) (answers : Answers) (locals : Locals) (line : Line) :
    Prop where
  kept : this.nameTime.equal this.nameStrategy (setVal answers.now) = true →
    locals.needRename = false ∨ (this.logStrategy ≠ .no ∧ this.nameTime.isInit = true)
  text : this.nameTime.equal this.nameStrategy (setVal answers.now) = true →
    ∀ text, line = .text text → locals.writeSuccess = true ∧ '\x00' ∉ text
  renamed : this.nameTime.isInit = false →
    this.nameTime.equal this.nameStrategy (setVal answers.now) = false →
    locals.needRename = true ∨ this.logStrategy ≠ .no

variable {this : SimpleLogger} {kind : Kind} {answers : Answers} {locals : Locals}
  {level : List Char} {opening : Opening} {write : Run → Bool × Run} {run : Run}

/-! What `time` says -/

theorem time_kept_iff (same : this.nameTime.equal this.nameStrategy (setVal answers.now) = true)
    (needRename : Bool) : (this.time this.logStrategy answers.now needRename).2 = false ↔
      needRename = false ∨ (this.logStrategy ≠ .no ∧ this.nameTime.isInit = true) := by
  unfold SimpleLogger.time
  split
  · rename_i silent
    simp [silent]
  · rename_i shown
    cases this.nameTime.isInit with
    | true => simp [shown]
    | false => simp [shown, same]

theorem time_renamed_iff (named : this.nameTime.isInit = false)
    (differs : this.nameTime.equal this.nameStrategy (setVal answers.now) = false)
    (needRename : Bool) : (this.time this.logStrategy answers.now needRename).2 = true ↔
      needRename = true ∨ this.logStrategy ≠ .no := by
  unfold SimpleLogger.time
  split
  · rename_i silent
    simp [silent]
  · rename_i shown
    simp [shown, named, differs]

theorem time_string (strategy : LogTimeStrategy) (clock : LocalTime) (needRename : Bool) :
    (this.time strategy clock needRename).1 = (time strategy clock).1 := by
  unfold SimpleLogger.time time
  split
  · rfl
  · rfl

/-! What reopening does to the calls -/

theorem quiet_nil : Quiet [] := List.forall_mem_nil _

theorem quiet_cons {call : FileCall} {rest : List FileCall} (plain : ¬call.Reopens)
    (quiet : Quiet rest) : Quiet (call :: rest) := List.forall_mem_cons.mpr ⟨plain, quiet⟩

theorem reopen_calls (opening : Opening) (run : Run) (kind : Kind) :
    ∃ fileName, (run.reopenIfNeed opening true kind).calls =
      run.calls ++ (if run.logger.fp then [.fclose] else []) ++ [.fopen fileName] := by
  have base : ∃ fileName, (run.reopen opening true).calls =
      run.calls ++ (if run.logger.fp then [.fclose] else []) ++ [.fopen fileName] := by
    rw [Run.reopen, if_pos (Or.inl rfl)]
    split
    · exact ⟨_, rfl⟩
    · exact ⟨_, by rw [List.append_nil]; rfl⟩
  cases kind with
  | simpleLogger => exact base
  | internalLogger =>
      rw [Run.reopenIfNeed, if_pos (Or.inl rfl)]
      exact base

theorem reopen_kept (opened : run.logger.state = .opened) (opening : Opening) (kind : Kind) :
    run.reopenIfNeed opening false kind = run := by
  cases kind with
  | simpleLogger =>
      rw [Run.reopenIfNeed, Run.reopen, if_neg]
      simp [opened]
  | internalLogger =>
      rw [Run.reopenIfNeed, if_neg]
      simp [opened]

/-! One print, with either way of writing -/

structure Writes (write : Run → Bool × Run) : Prop where
  appends : ∀ run, ∃ written, (write run).2.calls = run.calls ++ written ∧ Quiet written
  line : ∀ run, run.logger.state = .opened →
    ∃ line rest, (write run).2.calls = run.calls ++ .write line :: rest

theorem print_by_calls (needRename : Bool) : ∃ more,
    (this.printBy kind answers needRename write).calls =
      (write (Run.reopenIfNeed answers.first needRename ⟨this, []⟩ kind)).2.calls ++ more ∧
    (Quiet more ↔ (write (Run.reopenIfNeed answers.first needRename ⟨this, []⟩ kind)).1 = true) := by
  unfold SimpleLogger.printBy
  obtain ⟨succ, run⟩ := write (Run.reopenIfNeed answers.first needRename ⟨this, []⟩ kind)
  cases succ with
  | true => exact ⟨[], (List.append_nil _).symm, iff_of_true quiet_nil rfl⟩
  | false =>
      obtain ⟨fileName, calls⟩ := reopen_calls answers.last run kind
      refine ⟨_, calls.trans (List.append_assoc _ _ _), iff_of_false ?_ Bool.false_ne_true⟩
      intro quiet
      exact quiet (.fopen fileName) (List.mem_append_right _ (List.mem_singleton_self _)) trivial

theorem print_by_renamed (opened : this.state = .opened) (writes : Writes write) :
    ∃ fileName rest, (this.printBy kind answers true write).calls =
      .fclose :: .fopen fileName :: rest := by
  obtain ⟨more, calls, -⟩ := print_by_calls true
  obtain ⟨written, appended, -⟩ :=
    writes.appends (Run.reopenIfNeed answers.first true ⟨this, []⟩ kind)
  obtain ⟨fileName, reopened⟩ := reopen_calls answers.first ⟨this, []⟩ kind
  rw [appended, reopened, this.valid opened] at calls
  exact ⟨fileName, written ++ more, calls⟩

theorem print_by_kept (opened : this.state = .opened) (writes : Writes write) :
    ∃ line rest, (this.printBy kind answers false write).calls = .write line :: rest := by
  obtain ⟨more, calls, -⟩ := print_by_calls false
  rw [reopen_kept opened] at calls
  obtain ⟨line, rest, appended⟩ := writes.line ⟨this, []⟩ opened
  rw [appended] at calls
  exact ⟨line, rest ++ more, calls⟩

theorem print_by_quiet_iff (opened : this.state = .opened) (writes : Writes write)
    (needRename : Bool) : Quiet (this.printBy kind answers needRename write).calls ↔
      needRename = false ∧ (write ⟨this, []⟩).1 = true := by
  cases needRename with
  | true =>
      obtain ⟨fileName, rest, calls⟩ := print_by_renamed opened writes
      rw [calls]
      exact iff_of_false (fun quiet => quiet .fclose List.mem_cons_self trivial) (by simp)
  | false =>
      obtain ⟨more, calls, settled⟩ := print_by_calls false
      rw [reopen_kept opened] at calls settled
      obtain ⟨written, appended, quiet⟩ := writes.appends ⟨this, []⟩
      rw [calls, appended, List.nil_append, ← settled, Quiet, List.forall_mem_append]
      exact ⟨fun both => ⟨rfl, both.2⟩, fun rest => ⟨quiet, rest.2⟩⟩

theorem print_by_renamed_iff (opened : this.state = .opened) (writes : Writes write)
    (needRename : Bool) : (∃ fileName rest, (this.printBy kind answers needRename write).calls =
      .fclose :: .fopen fileName :: rest) ↔ needRename = true := by
  cases needRename with
  | true => exact iff_of_true (print_by_renamed opened writes) rfl
  | false =>
      obtain ⟨line, kept, calls⟩ := print_by_kept opened writes
      refine iff_of_false ?_ (by decide)
      rintro ⟨fileName, rest, renamed⟩
      cases calls.symm.trans renamed

/-! The two blocks that write -/

theorem vfprintf_calls (format : List Char) : ∃ rest,
    (run.vfprintf answers format).2.calls = run.calls ++ .write format :: rest ∧ Quiet rest := by
  unfold Run.vfprintf
  cases run.logger.isSync with
  | true =>
      refine ⟨[.fflush], ?_, quiet_cons id quiet_nil⟩
      cases answers.ebadf <;> exact List.append_assoc _ _ _
  | false =>
      refine ⟨[], ?_, quiet_nil⟩
      cases answers.ebadf <;> rfl

theorem writes_format (timeStr format : List Char) :
    Writes (Run.writeFormat answers timeStr level format) := by
  constructor
  · intro run
    unfold Run.writeFormat
    split
    · obtain ⟨rest, calls, quiet⟩ := vfprintf_calls (newFormatStr format timeStr level)
      exact ⟨_, calls, quiet_cons id quiet⟩
    · exact ⟨[], (List.append_nil _).symm, quiet_nil⟩
  · intro run opened
    rw [Run.writeFormat, if_pos opened]
    obtain ⟨rest, calls, -⟩ := vfprintf_calls (newFormatStr format timeStr level)
    exact ⟨_, rest, calls⟩

theorem write_text_calls (timeStr text : List Char) (writeSuccess : Bool)
    (opened : run.logger.state = .opened) : ∃ rest,
    (run.writeText answers timeStr level text writeSuccess).2.calls =
      run.calls ++ .write (textLine timeStr level text) :: rest ∧ Quiet rest := by
  rw [Run.writeText, if_pos opened]
  cases run.logger.isSync with
  | true => exact ⟨[.fflush], List.append_assoc _ _ _, quiet_cons id quiet_nil⟩
  | false => exact ⟨[], rfl, quiet_nil⟩

theorem writes_text (timeStr text : List Char) (writeSuccess : Bool) :
    Writes (Run.writeText answers timeStr level text writeSuccess) := by
  constructor
  · intro run
    by_cases opened : run.logger.state = .opened
    · obtain ⟨rest, calls, quiet⟩ := write_text_calls timeStr text writeSuccess opened
      exact ⟨_, calls, quiet_cons id quiet⟩
    · rw [Run.writeText, if_neg opened]
      exact ⟨[], (List.append_nil _).symm, quiet_nil⟩
  · intro run opened
    obtain ⟨rest, calls, -⟩ := write_text_calls timeStr text writeSuccess opened
    exact ⟨_, rest, calls⟩

theorem write_format_succeeds (opened : run.logger.state = .opened) (timeStr format : List Char)
    (written : 0 < answers.written) (flushed : answers.flushed = 0) :
    (run.writeFormat answers timeStr level format).1 = true := by
  rw [Run.writeFormat, if_pos opened]
  unfold Run.vfprintf
  cases run.logger.isSync <;> cases answers.ebadf <;> simp [written, flushed]

theorem c_str_whole_iff (text : List Char) : text.length ≤ (cStr text).length ↔ '\x00' ∉ text := by
  have whole : text.length ≤ (cStr text).length ↔ cStr text = text := by
    constructor
    · exact (List.takeWhile_prefix _).eq_of_length_le
    · exact fun same => Nat.le_of_eq (congrArg List.length same.symm)
  rw [whole, cStr, List.takeWhile_eq_self_iff]
  constructor
  · intro each inside
    simpa using each _ inside
  · intro absent c inside
    rw [decide_eq_true_eq]
    rintro rfl
    exact absent inside

theorem write_text_succeeds_iff (opened : run.logger.state = .opened) {timeStr text : List Char}
    (writeSuccess : Bool) (written : answers.written = (textLine timeStr level text).length)
    (flushed : answers.flushed = 0) :
    (run.writeText answers timeStr level text writeSuccess).1 = true ↔
      writeSuccess = true ∧ '\x00' ∉ text := by
  have length : (textLine timeStr level text).length =
      timeStr.length + level.length + (cStr text).length + 1 := by
    simp [textLine, Nat.add_assoc]
  have counted : asSize answers.written ≥ timeStr.length + level.length + text.length + 1 ↔
      '\x00' ∉ text := by
    rw [← c_str_whole_iff, asSize]
    simp only [wordSize]
    have int := answers.int
    rw [written, length] at int ⊢
    omega
  rw [Run.writeText, if_pos opened]
  cases run.logger.isSync <;> simp [counted, flushed]

/-! Both overloads -/

theorem print_quiet_iff {line : Line} (opened : this.state = .opened)
    (succeeds : Succeeds this answers level line) :
    Quiet (this.print kind answers locals level line).calls ↔
      (this.time this.logStrategy answers.now locals.needRename).2 = false ∧
        ∀ text, line = .text text → locals.writeSuccess = true ∧ '\x00' ∉ text := by
  cases line with
  | format format =>
      refine (print_by_quiet_iff opened (writes_format _ _) _).trans (and_congr_right fun _ => ?_)
      refine iff_of_true ?_ (fun _ other => by cases other)
      exact write_format_succeeds opened _ _ (succeeds.format format rfl) succeeds.flushed
  | text text =>
      refine (print_by_quiet_iff opened (writes_text _ _ _) _).trans (and_congr_right fun _ => ?_)
      have written := succeeds.text text rfl
      rw [← time_string _ _ locals.needRename] at written
      refine (write_text_succeeds_iff opened _ written succeeds.flushed).trans ?_
      constructor
      · rintro fits _ ⟨rfl⟩
        exact fits
      · exact fun fits => fits text rfl

theorem print_renamed_iff {line : Line} (opened : this.state = .opened) :
    (∃ fileName rest, (this.print kind answers locals level line).calls =
      .fclose :: .fopen fileName :: rest) ↔
      (this.time this.logStrategy answers.now locals.needRename).2 = true := by
  cases line with
  | format format => exact print_by_renamed_iff opened (writes_format _ _) _
  | text text => exact print_by_renamed_iff opened (writes_text _ _ _) _

/-- The logger is steady where no local decides that has not been assigned. -/
theorem steady_when (this : SimpleLogger) (kind : Kind) (answers : Answers) (locals : Locals)
    (level : List Char) (line : Line) (opened : this.state = .opened)
    (succeeds : Succeeds this answers level line) :
    Steady this kind answers locals level line ↔ LocalsFit this answers locals line := by
  constructor
  · rintro ⟨quiet, renamed⟩
    constructor
    · intro same
      exact (time_kept_iff same _).mp ((print_quiet_iff opened succeeds).mp (quiet same)).1
    · intro same
      exact ((print_quiet_iff opened succeeds).mp (quiet same)).2
    · intro named differs
      exact (time_renamed_iff named differs _).mp (renamed named differs).1
  · rintro ⟨kept, text, renamed⟩
    constructor
    · intro same
      exact (print_quiet_iff opened succeeds).mpr ⟨(time_kept_iff same _).mpr (kept same), text same⟩
    · intro named differs
      have needed := (time_renamed_iff named differs _).mpr (renamed named differs)
      exact ⟨needed, (print_renamed_iff opened).mpr needed⟩

def newLogger : SimpleLogger := .new ['a'] false .day .millisecond ⟨newYear, true⟩

def wholeLine : Answers where
  now := newYear
  first := ⟨newYear, true⟩
  last := ⟨newYear, true⟩
  written := 32
  flushed := 0
  ebadf := false
  int := by decide

def infoLevel : List Char := [' ', 'I', 'N', 'F', 'O', ' ']

def hello : List Char := ['h', 'i']

theorem hello_succeeds : Succeeds newLogger wholeLine infoLevel (.text hello) := by
  refine ⟨fun _ _ => by decide, ?_, rfl⟩
  rintro text ⟨rfl⟩
  decide

theorem hello_format_succeeds : Succeeds newLogger wholeLine infoLevel (.format hello) :=
  ⟨fun _ _ => by decide, (fun _ other => by cases other), rfl⟩

theorem steady_when_hello :
    Steady newLogger .simpleLogger wholeLine ⟨false, true⟩ infoLevel (.text hello) := by
  apply (steady_when newLogger .simpleLogger wholeLine ⟨false, true⟩ infoLevel (.text hello) rfl
    hello_succeeds).mpr
  refine ⟨fun _ => Or.inl rfl, ?_, fun _ _ => Or.inr (by decide)⟩
  rintro _ _ ⟨rfl⟩
  exact ⟨rfl, by decide⟩

/-- Within the same second either overload closes the file, after the line or before it. -/
theorem new_file_reopened :
    (Succeeds newLogger wholeLine infoLevel (.text hello) ∧
      ¬Steady newLogger .simpleLogger wholeLine ⟨false, false⟩ infoLevel (.text hello)) ∧
    Succeeds newLogger wholeLine infoLevel (.format hello) ∧
      ¬Steady newLogger .simpleLogger wholeLine ⟨true, false⟩ infoLevel (.format hello) := by
  have same : newLogger.nameTime.equal newLogger.nameStrategy (setVal wholeLine.now) = true := by
    decide
  refine ⟨⟨hello_succeeds, fun steady => ?_⟩, hello_format_succeeds, fun steady => ?_⟩
  · exact steady.quiet same .fclose (by decide) trivial
  · exact steady.quiet same .fclose (by decide) trivial

end Npoller.LogReopening
