import Mathlib.Tactic

/-!
# The proleptic Gregorian calendar

Days are counted from 1970-01-01, months from January 1970, both over all
integers.  The definitions are the ones by which ECMAScript specifies its dates
(`DayFromYear`, `YearFromTime`, `MonthFromTime`, `DateFromTime`, `MakeDay`).

* `firstDay` is the first day of a month, and `firstDay_succ` the length of each;
* `monthOf` is the month of a day, and `monthOf_eq_iff` characterises it by
  `firstDay` alone;
* `makeDay` counts a date from the first of its month, so a date past the end of
  the month runs over into the next (`monthOf_makeDay_iff`).

Only `firstDay_succ` and `firstDay_le_monthOf` look at years and at the table of
month lengths; everything else follows from them.
-/

namespace Paystream
namespace Library
namespace Calendar

/-! ## Years -/

/-- The year has 366 days. -/
def inLeapYear (year : Int) : Bool :=
  decide (year % 4 = 0) && (decide (year % 100 ≠ 0) || decide (year % 400 = 0))

/-- The day number of January 1. -/
def dayFromYear (year : Int) : Int :=
  365 * (year - 1970) + (year - 1969) / 4 - (year - 1901) / 100 +
    (year - 1601) / 400

def daysInYear (year : Int) : Int := if inLeapYear year then 366 else 365

/-- The year of a day: an estimate from the mean length of a year, which is off
by one at most. -/
def yearFromDay (day : Int) : Int :=
  let estimate := 1970 + day * 400 / 146097
  if day < dayFromYear estimate then estimate - 1
  else if dayFromYear (estimate + 1) ≤ day then estimate + 1
  else estimate

theorem dayFromYear_succ (year : Int) :
    dayFromYear (year + 1) = dayFromYear year + daysInYear year := by
  unfold dayFromYear daysInYear inLeapYear
  simp only [Bool.and_eq_true, Bool.or_eq_true, decide_eq_true_eq]
  split
  · omega
  · omega

theorem yearFromDay_spec (day : Int) :
    dayFromYear (yearFromDay day) ≤ day ∧
      day < dayFromYear (yearFromDay day + 1) := by
  -- the estimate is at most one year away on either side
  have hlow : dayFromYear (1970 + day * 400 / 146097 - 1) ≤ day := by
    unfold dayFromYear
    omega
  have hhigh : day < dayFromYear (1970 + day * 400 / 146097 + 1 + 1) := by
    unfold dayFromYear
    omega
  unfold yearFromDay
  simp only
  split
  · rename_i hbefore
    refine ⟨hlow, ?_⟩
    rw [sub_add_cancel]
    exact hbefore
  · split
    · rename_i hafter
      exact ⟨hafter, hhigh⟩
    · rename_i hstarted hnext
      exact ⟨not_lt.mp hstarted, not_le.mp hnext⟩

/-! ## Months of a year -/

/-- The days of a year before its month `month`, counted from zero. -/
def daysBeforeMonth (leap : Bool) : Nat → Int
  | 0 => 0
  | 1 => 31
  | 2 => 59 + leap.toNat
  | 3 => 90 + leap.toNat
  | 4 => 120 + leap.toNat
  | 5 => 151 + leap.toNat
  | 6 => 181 + leap.toNat
  | 7 => 212 + leap.toNat
  | 8 => 243 + leap.toNat
  | 9 => 273 + leap.toNat
  | 10 => 304 + leap.toNat
  | _ => 334 + leap.toNat

/-- The number of days of the month. -/
def daysInMonth (leap : Bool) : Nat → Int
  | 1 => 28 + leap.toNat
  | 3 => 30
  | 5 => 30
  | 8 => 30
  | 10 => 30
  | _ => 31

/-- The month in which the day `dayInYear` of a year lies. -/
def monthFromDayInYear (leap : Bool) (dayInYear : Int) : Nat :=
  if dayInYear < 31 then 0
  else if dayInYear < 59 + leap.toNat then 1
  else if dayInYear < 90 + leap.toNat then 2
  else if dayInYear < 120 + leap.toNat then 3
  else if dayInYear < 151 + leap.toNat then 4
  else if dayInYear < 181 + leap.toNat then 5
  else if dayInYear < 212 + leap.toNat then 6
  else if dayInYear < 243 + leap.toNat then 7
  else if dayInYear < 273 + leap.toNat then 8
  else if dayInYear < 304 + leap.toNat then 9
  else if dayInYear < 334 + leap.toNat then 10
  else 11

theorem daysBeforeMonth_succ (leap : Bool) {month : Nat} (h : month < 11) :
    daysBeforeMonth leap (month + 1) =
      daysBeforeMonth leap month + daysInMonth leap month := by
  cases leap <;> interval_cases month <;> rfl

theorem daysInYear_eq (year : Int) :
    daysInYear year = daysBeforeMonth (inLeapYear year) 11 +
      daysInMonth (inLeapYear year) 11 := by
  unfold daysInYear
  cases inLeapYear year with
  | false => rfl
  | true => rfl

theorem daysInMonth_bounds (leap : Bool) (month : Nat) :
    28 ≤ daysInMonth leap month ∧ daysInMonth leap month ≤ 31 := by
  have hleap := leap.toNat_le
  unfold daysInMonth
  split <;> omega

/-- The day `dayInYear` of a year lies in its month `month`. -/
structure InMonth (leap : Bool) (dayInYear : Int) (month : Nat) : Prop where
  month_lt : month < 12
  after_start : daysBeforeMonth leap month ≤ dayInYear
  before_end : dayInYear < daysBeforeMonth leap month + daysInMonth leap month

theorem monthFromDayInYear_spec (leap : Bool) {dayInYear : Int}
    (hstart : 0 ≤ dayInYear)
    (hend : dayInYear < daysBeforeMonth leap 11 + daysInMonth leap 11) :
    InMonth leap dayInYear (monthFromDayInYear leap dayInYear) := by
  simp only [daysBeforeMonth, daysInMonth] at hend
  unfold monthFromDayInYear
  -- one goal for each line of the table
  repeat' refine iteInduction (fun _ => ?_) fun _ => ?_
  all_goals
    constructor
    · decide
    · simp only [daysBeforeMonth]
      omega
    · simp only [daysBeforeMonth, daysInMonth]
      omega

/-! ## Months counted through the years -/

/-- The year of a month. -/
def yearOfMonth (month : Int) : Int := 1970 + month / 12

/-- The first day of a month. -/
def firstDay (month : Int) : Int :=
  dayFromYear (yearOfMonth month) +
    daysBeforeMonth (inLeapYear (yearOfMonth month)) (month % 12).toNat

def monthLength (month : Int) : Int :=
  daysInMonth (inLeapYear (yearOfMonth month)) (month % 12).toNat

theorem monthLength_ge (month : Int) : 28 ≤ monthLength month :=
  (daysInMonth_bounds _ _).1

theorem monthLength_le (month : Int) : monthLength month ≤ 31 :=
  (daysInMonth_bounds _ _).2

theorem firstDay_succ (month : Int) :
    firstDay (month + 1) = firstDay month + monthLength month := by
  unfold firstDay monthLength
  by_cases hlast : month % 12 = 11
  · -- December: the next month is the January of the next year
    have hyear : yearOfMonth (month + 1) = yearOfMonth month + 1 := by
      unfold yearOfMonth
      omega
    have hnext : ((month + 1) % 12).toNat = 0 := by omega
    have hthis : (month % 12).toNat = 11 := by omega
    rw [hyear, hnext, hthis, dayFromYear_succ, daysInYear_eq]
    simp only [daysBeforeMonth]
    omega
  · have hyear : yearOfMonth (month + 1) = yearOfMonth month := by
      unfold yearOfMonth
      omega
    have hnext : ((month + 1) % 12).toNat = (month % 12).toNat + 1 := by omega
    rw [hyear, hnext, daysBeforeMonth_succ _ (by omega)]
    omega

theorem firstDay_strictMono : StrictMono firstDay := by
  apply strictMono_int_of_lt_succ
  intro month
  have hlength := monthLength_ge month
  rw [firstDay_succ]
  omega

/-! ## The month of a day -/

/-- The month of a day within its year, from zero. -/
def monthFromDay (day : Int) : Nat :=
  monthFromDayInYear (inLeapYear (yearFromDay day))
    (day - dayFromYear (yearFromDay day))

/-- The day of the month, from one. -/
def dateFromDay (day : Int) : Int :=
  day - dayFromYear (yearFromDay day) -
    daysBeforeMonth (inLeapYear (yearFromDay day)) (monthFromDay day) + 1

/-- The month of a day. -/
def monthOf (day : Int) : Int :=
  12 * (yearFromDay day - 1970) + monthFromDay day

/-- The day number of a date.  Neither the month nor the date need lie within
its year or month. -/
def makeDay (year month date : Int) : Int :=
  dayFromYear (year + month / 12) +
    daysBeforeMonth (inLeapYear (year + month / 12)) (month % 12).toNat +
    date - 1

theorem makeDay_eq (year month date : Int) :
    makeDay year month date =
      firstDay (12 * (year - 1970) + month) + date - 1 := by
  have hyear : yearOfMonth (12 * (year - 1970) + month) = year + month / 12 := by
    unfold yearOfMonth
    omega
  have hmonth : (12 * (year - 1970) + month) % 12 = month % 12 := by omega
  unfold makeDay firstDay
  rw [hyear, hmonth]

/-- The day's own month and date make the day again, and later months and dates
count from there. -/
theorem makeDay_of_day (day months dates : Int) :
    makeDay (yearFromDay day) (monthFromDay day + months) dates =
      firstDay (monthOf day + months) + dates - 1 := by
  rw [makeDay_eq, ← add_assoc]
  rfl

theorem firstDay_monthOf (day : Int) :
    firstDay (monthOf day) = day - dateFromDay day + 1 ∧
      1 ≤ dateFromDay day ∧ dateFromDay day ≤ monthLength (monthOf day) := by
  obtain ⟨hstart, hend⟩ := yearFromDay_spec day
  rw [dayFromYear_succ, daysInYear_eq] at hend
  obtain ⟨hmonth, hbefore, hwithin⟩ := monthFromDayInYear_spec
    (inLeapYear (yearFromDay day))
    (show 0 ≤ day - dayFromYear (yearFromDay day) by omega) (by omega)
  have hyear : yearOfMonth (monthOf day) = yearFromDay day := by
    unfold yearOfMonth monthOf monthFromDay
    omega
  have hindex : (monthOf day % 12).toNat = monthFromDay day := by
    unfold monthOf monthFromDay
    omega
  unfold firstDay monthLength dateFromDay
  rw [hyear, hindex]
  unfold monthFromDay
  omega

/-- A day lies in the month between whose first day and the next month's first
day it lies. -/
theorem monthOf_eq_iff (day month : Int) :
    monthOf day = month ↔ firstDay month ≤ day ∧ day < firstDay (month + 1) := by
  have hown : firstDay (monthOf day) ≤ day ∧ day < firstDay (monthOf day + 1) := by
    obtain ⟨hfirst, hdate, hlength⟩ := firstDay_monthOf day
    rw [firstDay_succ]
    omega
  constructor
  · rintro rfl
    exact hown
  · rintro ⟨hstart, hend⟩
    -- two such months would overlap
    have hle := firstDay_strictMono.lt_iff_lt.mp (hown.1.trans_lt hend)
    have hge := firstDay_strictMono.lt_iff_lt.mp (hstart.trans_lt hown.2)
    omega

/-- A date stays in its month exactly when the month has such a day. -/
theorem monthOf_makeDay_iff (month : Int) {date : Int} (hdate : 1 ≤ date) :
    monthOf (firstDay month + date - 1) = month ↔ date ≤ monthLength month := by
  rw [monthOf_eq_iff, firstDay_succ]
  omega

theorem dateFromDay_makeDay {month date : Int} (hdate : 1 ≤ date)
    (hlength : date ≤ monthLength month) :
    dateFromDay (firstDay month + date - 1) = date := by
  have hmonth := (monthOf_makeDay_iff month hdate).mpr hlength
  have hfirst := (firstDay_monthOf (firstDay month + date - 1)).1
  rw [hmonth] at hfirst
  omega

/-! ## Dates as ECMAScript keeps them

A date is a number of milliseconds, or `NaN` (`none`) when it lies more than a
hundred million days from 1970. -/

def msPerDay : Int := 86400000

/-- The largest time value. -/
def maxTime : Int := 8640000000000000

/-- `TimeClip`. -/
def timeClip (time : Int) : Option Int :=
  if -maxTime ≤ time ∧ time ≤ maxTime then some time else none

/-- `getUTCDate`. -/
def getUTCDate (time : Int) : Int := dateFromDay (time / msPerDay)

/-- `getUTCMonth`. -/
def getUTCMonth (time : Int) : Int := monthFromDay (time / msPerDay)

/-- `setUTCDate`: the new time value. -/
def setUTCDate (time date : Int) : Option Int :=
  let day := time / msPerDay
  timeClip (makeDay (yearFromDay day) (monthFromDay day) date * msPerDay +
    time % msPerDay)

/-- `setUTCMonth`: the new time value, with the day of the month kept as a
number. -/
def setUTCMonth (time month : Int) : Option Int :=
  let day := time / msPerDay
  timeClip (makeDay (yearFromDay day) month (dateFromDay day) * msPerDay +
    time % msPerDay)

/-- One day later. -/
theorem setUTCDate_succ (time : Int) :
    setUTCDate time (getUTCDate time + 1) = timeClip (time + msPerDay) := by
  have hday := makeDay_of_day (time / msPerDay) 0 (dateFromDay (time / msPerDay) + 1)
  have hfirst := (firstDay_monthOf (time / msPerDay)).1
  rw [add_zero, add_zero, hfirst] at hday
  unfold setUTCDate getUTCDate
  simp only [hday]
  congr 1
  unfold msPerDay
  omega

/-- One month later: as many days later as the month has. -/
theorem setUTCMonth_succ (time : Int) :
    setUTCMonth time (getUTCMonth time + 1) =
      timeClip (time + monthLength (monthOf (time / msPerDay)) * msPerDay) := by
  have hday := makeDay_of_day (time / msPerDay) 1 (dateFromDay (time / msPerDay))
  have hfirst := (firstDay_monthOf (time / msPerDay)).1
  rw [firstDay_succ, hfirst] at hday
  unfold setUTCMonth getUTCMonth
  simp only [hday]
  congr 1
  unfold msPerDay
  omega

/-! ## Dates as text -/

/-- The digits of a number, filled up with zeros from the left. -/
def padded (width : Nat) (n : Int) : List Char :=
  let digits := Nat.toDigits 10 n.toNat
  List.replicate (width - digits.length) '0' ++ digits

/-- Four digits, or a sign and six. -/
def yearText (year : Int) : List Char :=
  if 0 ≤ year ∧ year ≤ 9999 then padded 4 year
  else if year < 0 then '-' :: padded 6 (-year)
  else '+' :: padded 6 year

/-- `toISOString`. -/
def toISOString (time : Int) : List Char :=
  let day := time / msPerDay
  let ms := time % msPerDay
  yearText (yearFromDay day) ++ '-' :: padded 2 (monthFromDay day + 1) ++
    '-' :: padded 2 (dateFromDay day) ++ 'T' :: padded 2 (ms / 3600000) ++
    ':' :: padded 2 (ms / 60000 % 60) ++ ':' :: padded 2 (ms / 1000 % 60) ++
    '.' :: padded 3 (ms % 1000) ++ ['Z']

theorem quote_not_mem_padded (width : Nat) (n : Int) : '"' ∉ padded width n := by
  intro h
  unfold padded at h
  rcases List.mem_append.mp h with hzero | hdigit
  · exact absurd (List.eq_of_mem_replicate hzero) (by decide)
  · exact absurd (Nat.isDigit_of_mem_toDigits (by decide) (by decide) hdigit) (by decide)

theorem quote_not_mem_yearText (year : Int) : '"' ∉ yearText year := by
  unfold yearText
  split
  · exact quote_not_mem_padded 4 year
  · split
    · simp [quote_not_mem_padded]
    · simp [quote_not_mem_padded]

theorem quote_not_mem_toISOString (time : Int) : '"' ∉ toISOString time := by
  simp [toISOString, quote_not_mem_padded, quote_not_mem_yearText]

end Calendar
end Library
end Paystream
