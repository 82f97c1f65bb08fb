import Micro.Lib.Word

/-!
# The clock

The kernel turns the date of the real-time clock into seconds, with months of 30 days, and
`gmtime_r` of the C library turns seconds into a date.
-/

namespace Micro.Kern.Clock

open Lib

structure RtcTime where
  (sec min hour day month year : Nat)

namespace RtcTime

def monthDays (year month : Nat) : Nat :=
  if month = 2 then if year % 4 = 0 ∧ (year % 100 = 0 → year % 400 = 0) then 29 else 28
  else if month ∈ [4, 6, 9, 11] then 30 else 31

/-- A time of the Gregorian calendar. -/
structure Valid (time : RtcTime) : Prop where
  sec : time.sec < 60
  min : time.min < 60
  hour : time.hour < 24
  day : 1 ≤ time.day ∧ time.day ≤ monthDays time.year time.month
  month : 1 ≤ time.month ∧ time.month ≤ 12
  year : 1970 ≤ time.year ∧ time.year ≤ 9999

/-- Times are ordered as the lists of their fields. -/
def fields (time : RtcTime) : List Nat :=
  [time.year, time.month, time.day, time.hour, time.min, time.sec]

def timeOfDay (time : RtcTime) : Nat := time.hour * 3600 + time.min * 60 + time.sec

theorem Valid.day_le {time : RtcTime} (valid : time.Valid) : time.day ≤ 31 := by
  apply Nat.le_trans valid.day.2
  rw [monthDays]
  split
  · split <;> decide
  · split <;> decide

end RtcTime

/-- The products of `date_to_epoch`, each computed in `int`. -/
def products (time : RtcTime) : List Int :=
  [time.sec * 1, time.min * 60, time.hour * 3600, time.day * 86400, time.month * 2592000,
    (time.year - 1970) * 31104000]

/-- `date_to_epoch`; none when a product overflows. -/
def dateToEpoch (time : RtcTime) : Option Int :=
  if ∀ product ∈ products time, -2 ^ 31 ≤ product ∧ product < 2 ^ 31 then
    some (products time).sum
  else none

variable {time first second : RtcTime}

/-- Only the years can overflow. -/
theorem dateToEpoch_valid (valid : time.Valid) : dateToEpoch time =
    if time.year < 2040 then
      some (time.timeOfDay + 86400 * (time.day + 30 * time.month + 360 * (time.year - 1970) : Int))
    else none := by
  have day := valid.day_le
  obtain ⟨sec, min, hour, -, month, year⟩ := valid
  have fits : (∀ product ∈ products time, -2 ^ 31 ≤ product ∧ product < 2 ^ 31) ↔
      time.year < 2040 := by
    simp only [products, List.forall_mem_cons, List.not_mem_nil, false_implies, implies_true,
      and_true]
    omega
  simp only [dateToEpoch, fits]
  congr 2
  simp only [products, List.sum_cons, List.sum_nil, RtcTime.timeOfDay]
  omega

/-- Both times have an epoch, the first the lesser one. -/
def Ordered (first second : RtcTime) : Prop :=
  ∃ early late, dateToEpoch first = some early ∧ dateToEpoch second = some late ∧ early < late

/-- The last of 31 days has the number of the day behind it. -/
theorem dateToEpoch_strictMono (valid : first.Valid) (validSecond : second.Valid)
    (earlier : first.fields < second.fields) :
    Ordered first second ↔ second.year < 2040 ∧
      (first.day = 31 → second.day = 1 →
        12 * second.year + second.month = 12 * first.year + first.month + 1 →
        first.timeOfDay < second.timeOfDay) := by
  have day := valid.day_le
  rw [Ordered, dateToEpoch_valid valid, dateToEpoch_valid validSecond]
  obtain ⟨sec, min, hour, ⟨low, -⟩, month, year⟩ := valid
  obtain ⟨secSecond, minSecond, hourSecond, ⟨lowSecond, -⟩, monthSecond, yearSecond⟩ := validSecond
  simp only [RtcTime.fields, List.cons_lt_cons_iff, List.lt_irrefl, and_false, or_false] at earlier
  simp only [RtcTime.timeOfDay]
  by_cases inRange : second.year < 2040
  · rw [if_pos (by omega), if_pos inRange]
    simp only [Option.some.injEq, exists_eq_left', exists_and_left]
    omega
  · simp [inRange]

theorem dateToEpoch_strictMono_newYear :
    Ordered ⟨59, 59, 23, 31, 12, 1999⟩ ⟨0, 0, 0, 2, 1, 2000⟩ :=
  (dateToEpoch_strictMono (by constructor <;> decide) (by constructor <;> decide) (by decide)).mpr
    (by decide)

theorem not_dateToEpoch_strictMono :
    ¬ ∀ first second : RtcTime, first.Valid → second.Valid → first.fields < second.fields →
      Ordered first second := by
  intro ordered
  obtain ⟨_, _, ⟨⟩, ⟨⟩, less⟩ := ordered ⟨0, 0, 0, 31, 1, 1970⟩ ⟨0, 0, 0, 1, 2, 1970⟩
    (by constructor <;> decide) (by constructor <;> decide) (by decide)
  exact absurd less (by decide)

/-- `struct tm`, apart from its flag. -/
structure Tm where
  (sec min hour mday mon year wday yday : Int)
  deriving Inhabited

def monthDaysRunning : List Int := [31, 59, 90, 120, 151, 181, 212, 243, 273, 304, 334, 365]

/-- `gmtime_r`, which adds the day of the year to what `tm` has; none when it reads outside of the
table. -/
def gmtimeR (timer : Int) (tm : Tm) : Option Tm :=
  let year := wrapInt (timer.tdiv 31104000 + 1970)
  let time := timer.tmod 31104000
  let mon := time.tdiv 2592000 + 1
  let time := time.tmod 2592000
  let mday := time.tdiv 86400
  let time := time.tmod 86400
  let hour := time.tdiv 3600
  let time := time.tmod 3600
  let yday := tm.yday + (monthDaysRunning.take (mon - 1).toNat).sum + mday
  if mon < 1 then none
  else some ⟨time.tmod 60, time.tdiv 60, hour, mday, mon, year, mday.tmod 7, yday⟩

/-- `gmtime_r` gives a time back from its epoch, with these numbers added to its date. -/
def Recovers (day month year : Int) (time : RtcTime) : Prop :=
  ∀ tm, ∃ epoch got, dateToEpoch time = some epoch ∧ gmtimeR epoch tm = some got ∧
    got.sec = time.sec ∧ got.min = time.min ∧ got.hour = time.hour ∧ got.mday = time.day + day ∧
      got.mon = time.month + month ∧ got.year = time.year + year

theorem gmtimeR_dateToEpoch (valid : time.Valid) (year : time.year ≤ 2039) :
    Recovers 0 1 0 time ↔ time.day < 30 ∧ time.month < 12 := by
  have day := valid.day_le
  rw [Recovers, dateToEpoch_valid valid, if_pos (by omega)]
  obtain ⟨sec, min, hour, -, month, ⟨low, -⟩⟩ := valid
  simp only [Option.some.injEq, exists_and_left, exists_eq_left', RtcTime.timeOfDay, gmtimeR]
  simp (disch := omega) only [Int.tdiv_eq_ediv_of_nonneg, Int.tmod_eq_emod_of_nonneg,
    wrapInt_of_range, if_neg, Option.some.injEq, exists_eq_left', forall_const]
  omega

theorem gmtimeR_dateToEpoch_leap : Recovers 0 1 0 ⟨59, 59, 23, 29, 2, 2000⟩ :=
  (gmtimeR_dateToEpoch (by constructor <;> decide) (by decide)).mpr (by decide)

theorem not_gmtimeR_dateToEpoch :
    ¬ ∃ day month year, ∀ time : RtcTime, time.Valid → time.year ≤ 2039 →
      Recovers day month year time := by
  rintro ⟨day, month, year, recovers⟩
  obtain ⟨_, _, ⟨⟩, ⟨⟩, -, -, -, isFirst, -⟩ :=
    recovers ⟨0, 0, 0, 1, 1, 1970⟩ (by constructor <;> decide) (by decide) default
  obtain ⟨_, _, ⟨⟩, ⟨⟩, -, -, -, isLast, -⟩ :=
    recovers ⟨0, 0, 0, 30, 1, 1970⟩ (by constructor <;> decide) (by decide) default
  have isFirst : (1 : Int) = 1 + day := isFirst
  have isLast : (0 : Int) = 30 + day := isLast
  omega

end Micro.Kern.Clock
