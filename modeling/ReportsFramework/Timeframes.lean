/-
The start of the frame a timestamp lies in, computed by the getters and setters of a
UTC moment, and the step from one frame to the next.
-/
import ReportsFramework.UtcCalendar

namespace ReportsFramework

open UtcCalendar

inductive Timeframe
  | day
  | week
  | month
  | year
deriving DecidableEq

-- What the code uses of `moment.utc`; a moment is its milliseconds.
namespace Moment

def msPerDay : ℤ := 86400000

def dayOf (ts : ℤ) : ℤ := ts / msPerDay

/-- Within a hundred million days of 1970. -/
def isValid (ts : ℤ) : Bool := -8640000000000000 ≤ ts ∧ ts ≤ 8640000000000000

def year (ts : ℤ) : ℤ := yearFromDay (dayOf ts)

/-- From 0. -/
def month (ts : ℤ) : ℤ := monthFromDay (dayOf ts)

def date (ts : ℤ) : ℤ := dayOf ts - dayFromMonth (12 * year ts + month ts) + 1

def dayOfYear (ts : ℤ) : ℤ := dayOf ts - dayFromYear (year ts) + 1

/-- Monday is 1. -/
def isoWeekday (ts : ℤ) : ℤ := weekday (dayOf ts) + 1

def isoWeekYear (ts : ℤ) : ℤ := UtcCalendar.isoWeekYear (dayOf ts)

def isoWeek (ts : ℤ) : ℤ := UtcCalendar.isoWeek (dayOf ts)

/-- `moment.utc({ year })`. -/
def ofYear (year : ℤ) : ℤ := dayFromYear year * msPerDay

def setDayOfYear (ts value : ℤ) : ℤ := ts + (value - dayOfYear ts) * msPerDay

/-- The date is kept, or is the last of the month. -/
def setMonth (ts value : ℤ) : ℤ :=
  let month := 12 * year ts + value
  let date := min (date ts) (dayFromMonth (month + 1) - dayFromMonth month)
  (dayFromMonth month + date - 1) * msPerDay + ts % msPerDay

def setIsoWeekday (ts value : ℤ) : ℤ := ts + (value - isoWeekday ts) * msPerDay

def setIsoWeek (ts value : ℤ) : ℤ := ts + (value - isoWeek ts) * 7 * msPerDay

/-- The week is kept, or is the last of the year. -/
def setIsoWeekYear (ts value : ℤ) : ℤ :=
  let week := min (isoWeek ts) (isoWeeksInYear value)
  (firstMonday value + 7 * (week - 1) + isoWeekday ts - 1) * msPerDay + ts % msPerDay

def addDays (ts value : ℤ) : ℤ := ts + value * msPerDay

def addWeeks (ts value : ℤ) : ℤ := addDays ts (7 * value)

def addMonths (ts value : ℤ) : ℤ := setMonth ts (month ts + value)

def addYears (ts value : ℤ) : ℤ := addMonths ts (12 * value)

end Moment

def getStartMtsByTimeframe (ts : ℤ) (timeframe : Timeframe) : ℤ :=
  let momentDate := Moment.ofYear (Moment.year ts)
  match timeframe with
  | .day => Moment.setDayOfYear momentDate (Moment.dayOfYear ts)
  | .week =>
      let inWeekYear := Moment.setIsoWeekYear momentDate (Moment.isoWeekYear ts)
      Moment.setIsoWeek (Moment.setIsoWeekday inWeekYear 1) (Moment.isoWeek ts)
  | .month => Moment.setMonth momentDate (Moment.month ts)
  | .year => momentDate

/-- The step of `getMtsGroupedByTimeframe`. -/
def nextFrame (currMoment : ℤ) : Timeframe → ℤ
  | .day => Moment.addDays currMoment 1
  | .week => Moment.setIsoWeekday (Moment.addWeeks currMoment 1) 1
  | .month => Moment.addMonths currMoment 1
  | .year => Moment.addYears currMoment 1

/-- The frames of the calendar, in milliseconds. -/
def Timeframe.frames (timeframe : Timeframe) : Frames :=
  Frames.scale
    (match timeframe with
      | .day => days
      | .week => weeks
      | .month => months
      | .year => years)
    Moment.msPerDay (by decide)

namespace Moment

theorem dayOf_add (day rest : ℤ) (h : 0 ≤ rest) (h' : rest < msPerDay) :
    dayOf (day * msPerDay + rest) = day := by
  unfold dayOf
  unfold msPerDay at *
  omega

@[simp] theorem dayOf_mul (day : ℤ) : dayOf (day * msPerDay) = day := by
  have := dayOf_add day 0 (by decide) (by decide)
  rwa [Int.add_zero] at this

@[simp] theorem year_ofYear (y : ℤ) : year (ofYear y) = y := by
  rw [year, ofYear, dayOf_mul]
  exact years.index_boundary y

theorem mul_emod (day : ℤ) : day * msPerDay % msPerDay = 0 := Int.mul_emod_left day msPerDay

/-- The week an ISO year and week number name, found from any day. -/
theorem setIsoWeek_monday (day isoYear week : ℤ) :
    setIsoWeek (setIsoWeekday (setIsoWeekYear (day * msPerDay) isoYear) 1) week =
      (firstMonday isoYear + 7 * (week - 1)) * msPerDay := by
  have hweek := one_le_isoWeek day
  have hweeks := one_le_isoWeeksInYear isoYear
  have hmonday : setIsoWeekday (setIsoWeekYear (day * msPerDay) isoYear) 1 =
      (firstMonday isoYear + 7 * (min (isoWeek (day * msPerDay)) (isoWeeksInYear isoYear) - 1)) *
        msPerDay := by
    simp only [setIsoWeekday, setIsoWeekYear, isoWeekday, mul_emod, Int.add_zero, dayOf_mul,
      ← Int.add_mul]
    congr 1
    unfold firstMonday weekday
    omega
  rw [hmonday]
  simp only [setIsoWeek, isoWeek, dayOf_mul]
  rw [isoWeek_firstMonday_add (by omega) (by omega), ← Int.add_mul]
  congr 1
  omega

/-- Year and month of the first day of a month. -/
theorem index_month (n : ℤ) : year (dayFromMonth n * msPerDay) = n / 12 ∧
    month (dayFromMonth n * msPerDay) = n % 12 := by
  have hindex := months.index_boundary n
  have hmonth := monthFromDay_spec (dayFromMonth n)
  change 12 * yearFromDay (dayFromMonth n) + monthFromDay (dayFromMonth n) = n at hindex
  rw [year, month, dayOf_mul]
  omega

/-- The first day of a month stays the first day. -/
theorem setMonth_month (n value : ℤ) : setMonth (dayFromMonth n * msPerDay) value =
    dayFromMonth (12 * (n / 12) + value) * msPerDay := by
  have hlength := dayFromMonth_succ (12 * (n / 12) + value)
  obtain ⟨hyear, hmonth⟩ := index_month n
  simp only [setMonth, date, hyear, hmonth, dayOf_mul, mul_emod, Int.add_zero]
  congr 1
  rw [show 12 * (n / 12) + n % 12 = n by omega]
  omega

theorem ofYear_eq (y : ℤ) : ofYear y = dayFromMonth (12 * y) * msPerDay := by
  unfold ofYear dayFromMonth daysBeforeMonth
  rw [show 12 * y / 12 = y by omega, show 12 * y % 12 = 0 by omega]
  simp

end Moment

/-- The setters come to the start of the frame of the calendar. -/
theorem getStartMtsByTimeframe_eq (ts : ℤ) (timeframe : Timeframe) :
    getStartMtsByTimeframe ts timeframe = timeframe.frames.start ts := by
  cases timeframe with
  | day =>
    simp only [getStartMtsByTimeframe, Moment.setDayOfYear, Moment.dayOfYear, Moment.year_ofYear]
    simp only [Moment.ofYear, Moment.dayOf_mul, ← Int.add_mul]
    refine congrArg (· * Moment.msPerDay) ?_
    change _ = Moment.dayOf ts
    omega
  | week =>
    rw [getStartMtsByTimeframe, Moment.ofYear, Moment.setIsoWeek_monday]
    rw [Moment.isoWeekYear, Moment.isoWeek, firstMonday_add_isoWeek]
    refine congrArg (· * Moment.msPerDay) ?_
    change _ = 7 * ((Moment.dayOf ts + 3) / 7) - 3
    unfold weekday
    omega
  | month =>
    rw [getStartMtsByTimeframe, Moment.ofYear_eq, Moment.setMonth_month,
      show 12 * Moment.year ts / 12 = Moment.year ts by omega]
    rfl
  | year => rfl

theorem nextFrame_boundary (timeframe : Timeframe) (n : ℤ) :
    nextFrame (timeframe.frames.boundary n) timeframe = timeframe.frames.boundary (n + 1) := by
  cases timeframe with
  | day =>
    change n * Moment.msPerDay + 1 * Moment.msPerDay = (n + 1) * Moment.msPerDay
    rw [← Int.add_mul]
  | week =>
    change Moment.setIsoWeekday ((7 * n - 3) * Moment.msPerDay + 7 * Moment.msPerDay) 1 =
      (7 * (n + 1) - 3) * Moment.msPerDay
    rw [← Int.add_mul]
    simp only [Moment.setIsoWeekday, Moment.isoWeekday, Moment.dayOf_mul, ← Int.add_mul]
    refine congrArg (· * Moment.msPerDay) ?_
    unfold weekday
    omega
  | month =>
    change Moment.addMonths (dayFromMonth n * Moment.msPerDay) 1 =
      dayFromMonth (n + 1) * Moment.msPerDay
    rw [Moment.addMonths, Moment.setMonth_month, (Moment.index_month n).2]
    rw [show 12 * (n / 12) + (n % 12 + 1) = n + 1 by omega]
  | year =>
    change Moment.addMonths (Moment.ofYear n) (12 * 1) = Moment.ofYear (n + 1)
    rw [Moment.ofYear_eq, Moment.ofYear_eq, Moment.addMonths, Moment.setMonth_month,
      (Moment.index_month _).2]
    rw [show 12 * (12 * n / 12) + (12 * n % 12 + 12 * 1) = 12 * (n + 1) by omega]

end ReportsFramework
