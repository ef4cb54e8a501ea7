import Mathlib.Data.List.Basic
import Mathlib.Tactic.MkIffOfInductiveProp

/-!
`base_logger::log_time`, and the suffix of a log file as `simple_logger::time` renders
it. Inside the class `month` and `hour` are its fields, so `equal` compares the strategy
with the month and the hour of the stored time; `day` is no field, and is the
enumerator. The fields of `_DEBUG` are left out, as the build leaves them out.
-/

namespace Npoller.LogRotation

inductive LogTimeStrategy where
  | no
  | month
  | day
  | hour
  | minute
  | second
  | millisecond
  deriving DecidableEq, Repr

def LogTimeStrategy.value : LogTimeStrategy → Nat
  | .no => 0
  | .month => 10
  | .day => 9
  | .hour => 8
  | .minute => 7
  | .second => 6
  | .millisecond => 5

/-- A `struct tm` of `localtime_r`, with the `tv_usec` that was read with it. The year
counts from 1900 and the month from 0. -/
structure LocalTime where
  tmYear : Nat
  tmMon : Nat
  tmMday : Nat
  tmHour : Nat
  tmMin : Nat
  tmSec : Nat
  tvUsec : Nat
  mon : tmMon < 12
  mday : tmMday < 32
  hour : tmHour < 24
  min : tmMin < 60
  sec : tmSec < 61
  usec : tvUsec < 1000000

structure LogTime where
  year : BitVec 12
  month : BitVec 4
  date : BitVec 5
  hour : BitVec 5
  init : BitVec 1
  deriving DecidableEq, Repr

/-- `log_time()` -/
def LogTime.new : LogTime := ⟨0, 0, 0, 0, 0⟩

/-- `void set_val(struct tm *)`; it writes every field. -/
def setVal (time : LocalTime) : LogTime where
  init := 1
  year := BitVec.ofNat 12 time.tmYear
  month := BitVec.ofNat 4 time.tmMon
  date := BitVec.ofNat 5 time.tmMday
  hour := BitVec.ofNat 5 time.tmHour

/-- `bool is_init()`, which is true of the times that no `set_val` has written. -/
def LogTime.isInit (this : LogTime) : Bool := this.init == 0

def LogTime.equal (this : LogTime) (strategy : LogTimeStrategy) (other : LogTime) : Bool :=
  (decide (strategy.value > this.month.toNat) ||
    (this.year == other.year && this.month == other.month)) &&
  (decide (strategy.value > LogTimeStrategy.day.value) || this.date == other.date) &&
  (decide (strategy.value > this.hour.toNat) || this.hour == other.hour)

def padded (n : Nat) : List Char := [(n / 10).digitChar, (n % 10).digitChar]

/-- What the formats of `strftime` show after `%Y`: `-%m`, `-%d`, `-%H`, `:%M`, `:%S`. -/
def LocalTime.fields (time : LocalTime) : LogTimeStrategy → List (Char × Nat)
  | .no => []
  | .month => [('-', time.tmMon + 1)]
  | .day => [('-', time.tmMon + 1), ('-', time.tmMday)]
  | .hour => [('-', time.tmMon + 1), ('-', time.tmMday), ('-', time.tmHour)]
  | .minute =>
      [('-', time.tmMon + 1), ('-', time.tmMday), ('-', time.tmHour), (':', time.tmMin)]
  | .second | .millisecond =>
      [('-', time.tmMon + 1), ('-', time.tmMday), ('-', time.tmHour), (':', time.tmMin),
        (':', time.tmSec)]

def showField (field : Char × Nat) : List Char := field.1 :: padded field.2

/-- `sprintf(milli_str, "-%03d", millisecond)` -/
def LocalTime.milliStr (time : LocalTime) : List Char :=
  let millisecond := time.tvUsec / 1000 % 1000
  '-' :: (millisecond / 100).digitChar :: padded (millisecond % 100)

/-- The string that `simple_logger::time` returns; its buffer of 25 characters holds it for
every year of four digits. -/
def LocalTime.render (time : LocalTime) (strategy : LogTimeStrategy) : List Char :=
  if strategy = .no then []
  else
    Nat.toDigits 10 (time.tmYear + 1900) ++ (time.fields strategy).flatMap showField ++
      if strategy = .millisecond then time.milliStr else []

/-- The strategies that name a file after a month, a day or an hour. -/
def Periodic (strategy : LogTimeStrategy) : Prop :=
  strategy = .month ∨ strategy = .day ∨ strategy = .hour

def SameMonth (a b : LocalTime) : Prop := a.tmYear = b.tmYear ∧ a.tmMon = b.tmMon

@[mk_iff]
structure SamePeriod (strategy : LogTimeStrategy) (a b : LocalTime) : Prop where
  month : SameMonth a b
  day : strategy ≠ .month → a.tmMday = b.tmMday
  hour : strategy = .hour → a.tmHour = b.tmHour

/-- `equal` tells the times whose files have one name, which are those of one period. -/
structure ComparesNames (strategy : LogTimeStrategy) (a b : LocalTime) : Prop where
  compared : (setVal a).equal strategy (setVal b) = true ↔ a.render strategy = b.render strategy
  shown : a.render strategy = b.render strategy ↔ SamePeriod strategy a b

/-- `equal` looks at the month and at the hour of `a` where they are at least the value of
the strategy. The hours of one month must not be told apart, unless the names show them; two
months must be told apart by a part that is looked at. -/
@[mk_iff]
structure PartsLookedAt (strategy : LogTimeStrategy) (a b : LocalTime) : Prop where
  sameMonth : SameMonth a b → a.tmHour = b.tmHour ∨ (strategy ≠ .month ∧ a.tmMday ≠ b.tmMday) ∨
    if strategy = .hour then strategy.value ≤ a.tmHour else a.tmHour < strategy.value
  otherMonth : ¬SameMonth a b → strategy.value ≤ a.tmMon ∨
    (strategy ≠ .month ∧ a.tmMday ≠ b.tmMday) ∨
    (strategy.value ≤ a.tmHour ∧ a.tmHour ≠ b.tmHour)

variable {strategy : LogTimeStrategy} {a b : LocalTime}

/-! What a suffix shows -/

theorem padded_inj {m n : Nat} (smallM : m < 100) (smallN : n < 100)
    (same : padded m = padded n) : m = n := by
  have value (k : Nat) (small : k < 100) : Nat.ofDigitChars 10 (padded k) 0 = k := by
    rw [padded, Nat.ofDigitChars_cons_digitChar_of_lt_ten (by omega),
      Nat.ofDigitChars_cons_digitChar_of_lt_ten (by omega), Nat.ofDigitChars_nil]
    omega
  rw [← value m smallM, same, value n smallN]

theorem show_fields_inj {xs ys : List (Char × Nat)} (length : xs.length = ys.length)
    (smallX : ∀ field ∈ xs, field.2 < 100) (smallY : ∀ field ∈ ys, field.2 < 100)
    (same : xs.flatMap showField = ys.flatMap showField) : xs = ys := by
  induction xs generalizing ys with
  | nil => exact (List.length_eq_zero_iff.mp length.symm).symm
  | cons x xs ih =>
      cases ys with
      | nil => cases length
      | cons y ys =>
          rw [List.flatMap_cons, List.flatMap_cons] at same
          obtain ⟨head, tail⟩ := List.append_inj same rfl
          rw [showField, showField, List.cons.injEq] at head
          have first : x.2 = y.2 :=
            padded_inj (smallX x List.mem_cons_self) (smallY y List.mem_cons_self) head.2
          rw [Prod.ext head.1 first]
          have rest : xs = ys := ih (Nat.succ.inj length)
            (fun field inside => smallX field (List.mem_cons_of_mem x inside))
            (fun field inside => smallY field (List.mem_cons_of_mem y inside)) tail
          rw [rest]

theorem fields_small (field : Char × Nat) (inside : field ∈ a.fields strategy) : field.2 < 100 := by
  have mon := a.mon
  have mday := a.mday
  have hour := a.hour
  have min := a.min
  have sec := a.sec
  cases strategy with
  | no => cases inside
  | month | day | hour | minute | second | millisecond =>
      simp only [LocalTime.fields, List.mem_cons, List.not_mem_nil, or_false] at inside
      rcases inside with rfl | rfl | rfl | rfl | rfl <;> dsimp only <;> omega

theorem year_ends {m n : Nat} {xs ys : List Char}
    (same : Nat.toDigits 10 m ++ '-' :: xs = Nat.toDigits 10 n ++ '-' :: ys) : m = n ∧ xs = ys := by
  have digits (k : Nat) (rest : List Char) :
      (Nat.toDigits 10 k ++ '-' :: rest).takeWhile Char.isDigit = Nat.toDigits 10 k := by
    rw [List.takeWhile_append_of_pos fun c inside =>
      Nat.isDigit_of_mem_toDigits (by decide) (by decide) inside]
    exact List.append_nil _
  have years : Nat.toDigits 10 m = Nat.toDigits 10 n := by
    rw [← digits m xs, same, digits n ys]
  have number : m = n := by
    rw [← @Nat.ofDigitChars_ten_toDigits m, years, Nat.ofDigitChars_ten_toDigits]
  subst number
  exact ⟨rfl, (List.cons.inj (List.append_cancel_left same)).2⟩

theorem render_fields_iff (periodic : Periodic strategy) :
    a.render strategy = b.render strategy ↔
      a.tmYear = b.tmYear ∧ a.fields strategy = b.fields strategy := by
  have shown (time : LocalTime) : ∃ rest, (time.fields strategy).flatMap showField = '-' :: rest ∧
      time.render strategy = Nat.toDigits 10 (time.tmYear + 1900) ++ '-' :: rest := by
    rcases periodic with rfl | rfl | rfl <;>
      exact ⟨_, rfl, List.append_nil _⟩
  obtain ⟨restA, fieldsA, shownA⟩ := shown a
  obtain ⟨restB, fieldsB, shownB⟩ := shown b
  rw [shownA, shownB]
  constructor
  · intro same
    obtain ⟨year, rfl⟩ := year_ends same
    have length : (a.fields strategy).length = (b.fields strategy).length := by
      cases strategy <;> rfl
    exact ⟨Nat.add_right_cancel year, show_fields_inj length (fun _ => fields_small _)
      (fun _ => fields_small _) (fieldsA.trans fieldsB.symm)⟩
  · rintro ⟨year, fields⟩
    rw [fields, fieldsB] at fieldsA
    rw [year, (List.cons.inj fieldsA).2]

theorem render_same_iff (periodic : Periodic strategy) :
    a.render strategy = b.render strategy ↔ SamePeriod strategy a b := by
  rw [render_fields_iff periodic]
  constructor
  · rintro ⟨year, fields⟩
    rcases periodic with rfl | rfl | rfl
    · simp only [LocalTime.fields, List.cons.injEq, Prod.mk.injEq, Nat.add_right_cancel_iff,
        true_and, and_true] at fields
      exact ⟨⟨year, fields⟩, fun other => absurd rfl other, fun other => by cases other⟩
    · simp only [LocalTime.fields, List.cons.injEq, Prod.mk.injEq, Nat.add_right_cancel_iff,
        true_and, and_true] at fields
      exact ⟨⟨year, fields.1⟩, fun _ => fields.2, fun other => by cases other⟩
    · simp only [LocalTime.fields, List.cons.injEq, Prod.mk.injEq, Nat.add_right_cancel_iff,
        true_and, and_true] at fields
      exact ⟨⟨year, fields.1⟩, fun _ => fields.2.1, fun _ => fields.2.2⟩
  · rintro ⟨⟨year, mon⟩, day, hour⟩
    refine ⟨year, ?_⟩
    rcases periodic with rfl | rfl | rfl
    · rw [LocalTime.fields, LocalTime.fields, mon]
    · rw [LocalTime.fields, LocalTime.fields, mon, day (by decide)]
    · rw [LocalTime.fields, LocalTime.fields, mon, day (by decide), hour rfl]

/-! What `equal` looks at -/

theorem set_val_keeps (time : LocalTime) (year : time.tmYear < 4096) :
    (setVal time).year.toNat = time.tmYear ∧ (setVal time).month.toNat = time.tmMon ∧
      (setVal time).date.toNat = time.tmMday ∧ (setVal time).hour.toNat = time.tmHour :=
  ⟨Nat.mod_eq_of_lt year, Nat.mod_eq_of_lt (Nat.lt_trans time.mon (by decide)),
    Nat.mod_eq_of_lt time.mday, Nat.mod_eq_of_lt (Nat.lt_trans time.hour (by decide))⟩

theorem equal_iff (yearA : a.tmYear < 4096) (yearB : b.tmYear < 4096) :
    (setVal a).equal strategy (setVal b) = true ↔
      (a.tmMon < strategy.value ∨ SameMonth a b) ∧
      (LogTimeStrategy.day.value < strategy.value ∨ a.tmMday = b.tmMday) ∧
      (a.tmHour < strategy.value ∨ a.tmHour = b.tmHour) := by
  obtain ⟨keptYearA, keptMonA, keptDateA, keptHourA⟩ := set_val_keeps a yearA
  obtain ⟨keptYearB, keptMonB, keptDateB, keptHourB⟩ := set_val_keeps b yearB
  simp only [LogTime.equal, Bool.and_eq_true, Bool.or_eq_true, decide_eq_true_eq, beq_iff_eq,
    ← BitVec.toNat_inj, keptYearA, keptMonA, keptDateA, keptHourA, keptYearB, keptMonB, keptDateB,
    keptHourB, SameMonth, gt_iff_lt, and_assoc]

/-- `equal` agrees with the names in the times where it looks at the parts that they show,
and at no other part that differs. -/
theorem equal_compares_names_when (strategy : LogTimeStrategy) (a b : LocalTime)
    (periodic : Periodic strategy) (yearA : a.tmYear < 4096) (yearB : b.tmYear < 4096) :
    ComparesNames strategy a b ↔ PartsLookedAt strategy a b := by
  have names := @render_same_iff strategy a b periodic
  have told : ComparesNames strategy a b ↔
      ((setVal a).equal strategy (setVal b) = true ↔ SamePeriod strategy a b) :=
    ⟨fun both => both.compared.trans names, fun same => ⟨same.trans names.symm, names⟩⟩
  rw [told, equal_iff yearA yearB, samePeriod_iff, partsLookedAt_iff]
  -- the value of the strategy decides which of the three parts can be passed over
  rcases periodic with rfl | rfl | rfl
  · simp only [LogTimeStrategy.value, SameMonth, Nat.lt_add_one, true_or, true_and, ne_eq,
      not_true_eq_false, IsEmpty.forall_iff, reduceCtorEq, and_self, and_true, false_and,
      ↓reduceIte, false_or, and_imp, not_and]
    omega
  · simp only [LogTimeStrategy.value, SameMonth, Nat.lt_irrefl, false_or, ne_eq, reduceCtorEq,
      not_false_eq_true, forall_const, IsEmpty.forall_iff, and_true, true_and, ↓reduceIte, and_imp,
      not_and]
    omega
  · simp only [LogTimeStrategy.value, SameMonth, Nat.reduceLT, false_or, ne_eq, reduceCtorEq,
      not_false_eq_true, forall_const, true_and, ↓reduceIte, and_imp, not_and]
    omega

def newYear : LocalTime where
  tmYear := 124
  tmMon := 0
  tmMday := 1
  tmHour := 10
  tmMin := 0
  tmSec := 0
  tvUsec := 0
  mon := by decide
  mday := by decide
  hour := by decide
  min := by decide
  sec := by decide
  usec := by decide

def anHourLater : LocalTime := { newYear with tmHour := 11, hour := by decide }

def aMonthLater : LocalTime := { newYear with tmMon := 1, mon := by decide }

theorem equal_compares_names_when_hour : ComparesNames .hour newYear anHourLater :=
  (equal_compares_names_when .hour newYear anHourLater (Or.inr (Or.inr rfl)) (by decide)
    (by decide)).mpr ⟨fun _ => Or.inr (Or.inr (by decide)), fun other => absurd ⟨rfl, rfl⟩ other⟩

/-- A file of a month is kept for the next month, and one of a day is left after an hour. -/
theorem names_mistaken :
    ((setVal newYear).equal .month (setVal aMonthLater) = true ∧
      newYear.render .month ≠ aMonthLater.render .month ∧
      ¬ComparesNames .month newYear aMonthLater) ∧
    ((setVal newYear).equal .day (setVal anHourLater) = false ∧
      newYear.render .day = anHourLater.render .day ∧ ¬ComparesNames .day newYear anHourLater) := by
  have keeps : (setVal newYear).equal .month (setVal aMonthLater) = true := by decide
  have other : newYear.render .month ≠ aMonthLater.render .month := by decide
  have leaves : (setVal newYear).equal .day (setVal anHourLater) = false := by decide
  have same : newYear.render .day = anHourLater.render .day := by decide
  refine ⟨⟨keeps, other, fun names => other (names.compared.mp keeps)⟩, leaves, same, ?_⟩
  intro names
  rw [names.compared.mpr same] at leaves
  cases leaves

end Npoller.LogRotation
