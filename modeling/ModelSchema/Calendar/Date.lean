import ModelSchema.Calendar.Error

/-!
# Calendar dates

Dates of the proleptic Gregorian calendar in the years 1 to 9999, their day numbers and their weeks.
A date carries the proof that it exists; the smart constructor names the first field that is out of
range.
-/

namespace ModelSchema.Calendar

def isLeap (year : Nat) : Bool := year % 4 = 0 && (year % 100 ≠ 0 || year % 400 = 0)

def daysInMonth (year month : Nat) : Nat :=
  if month = 2 then (if isLeap year then 29 else 28)
  else if month ∈ [4, 6, 9, 11] then 30
  else 31

/-- Whether a year, a month and a day name a date. -/
def IsDate (year month day : Nat) : Prop :=
  (1 ≤ year ∧ year ≤ 9999) ∧ (1 ≤ month ∧ month ≤ 12) ∧ 1 ≤ day ∧ day ≤ daysInMonth year month

instance (year month day : Nat) : Decidable (IsDate year month day) := by
  unfold IsDate; infer_instance

structure Date where
  year : Nat
  month : Nat
  day : Nat
  isDate : IsDate year month day
  deriving DecidableEq

namespace Date

/-- The first date of the calendar. -/
def earliest : Date := ⟨1, 1, 1, by decide⟩

/-- The last date of the calendar. -/
def latest : Date := ⟨9999, 12, 31, by decide⟩

end Date

/-- The date of a year, a month and a day; the first of them that is out of range is named. -/
def Date.make (year month day : Nat) : Except CalendarError Date :=
  if hy : 1 ≤ year ∧ year ≤ 9999 then
    if hm : 1 ≤ month ∧ month ≤ 12 then
      if hd : 1 ≤ day ∧ day ≤ daysInMonth year month then .ok ⟨year, month, day, hy, hm, hd⟩
      else .error .dayOutOfRange
    else .error .monthOutOfRange
  else .error (.yearOutOfRange year)

@[simp] theorem Date.make_self (d : Date) : Date.make d.year d.month d.day = .ok d := by
  obtain ⟨year, month, day, hy, hm, hd⟩ := d
  simp [Date.make, hy, hm, hd]

/-- The days before a year, from the first of January of the year 1. -/
def daysBeforeYear (year : Nat) : Nat :=
  let y := year - 1
  y * 365 + y / 4 - y / 100 + y / 400

/-- The days of a year before a month. -/
def daysBeforeMonth (year : Nat) : Nat → Nat
  | 0 => 0
  | 1 => 0
  | month + 1 => daysBeforeMonth year month + daysInMonth year month

/-- The number of a day; the first of January of the year 1 has the number 1. -/
def dayNumber (year month day : Nat) : Nat := daysBeforeYear year + daysBeforeMonth year month + day

def Date.number (d : Date) : Nat := dayNumber d.year d.month d.day

/-- The month and the day of the day with the given number, from zero, in a year. -/
def placeInYear (year : Nat) : Nat → Nat → Nat → Nat × Nat
  | 0, month, rest => (month, rest + 1)
  | fuel + 1, month, rest =>
    if rest < daysInMonth year month then (month, rest + 1)
    else placeInYear year fuel (month + 1) (rest - daysInMonth year month)

/-- The year, month and day of a day number: four hundred years have 146097 days, a century inside
them 36524, four years 1461. The last day of a longer century or of a leap year is a cycle's extra
day. -/
def ofDayNumber (number : Nat) : Nat × Nat × Nat :=
  let n := number - 1
  let cycles := n / 146097
  let n := n % 146097
  let centuries := n / 36524
  let n := n % 36524
  let fours := n / 1461
  let n := n % 1461
  let years := n / 365
  let year := cycles * 400 + centuries * 100 + fours * 4 + years + 1
  if years = 4 ∨ centuries = 4 then (year - 1, 12, 31)
  else
    let (month, day) := placeInYear year 11 1 (n % 365)
    (year, month, day)

/-- The weekday of the first of January, Monday being zero. -/
def newYearWeekday (year : Nat) : Nat := (dayNumber year 1 1 + 6) % 7

/-- A year has a week 53 when it starts on a Thursday, or on a Wednesday if it is a leap year. -/
def hasWeek53 (year : Nat) : Bool :=
  newYearWeekday year = 3 || (newYearWeekday year = 2 && isLeap year)

/-- The number of the Monday that starts week 1, the week with the first Thursday of the year. -/
def firstMonday (year : Nat) : Nat :=
  let monday := dayNumber year 1 1 - newYearWeekday year
  if newYearWeekday year > 3 then monday + 7 else monday

/-- The year, month and day of a weekday in a week of a year, where the year has the week. The year
zero has 52 weeks of which no day has a month. -/
def ofWeek? (year week weekday : Nat) : Option (Nat × Nat × Nat) :=
  if 1 ≤ weekday ∧ weekday ≤ 7 ∧ 1 ≤ week ∧
      (week ≤ 52 ∨ (week = 53 ∧ year ≠ 0 ∧ hasWeek53 year)) then
    if year = 0 then some (1, 0, 0)
    else some (ofDayNumber (firstMonday year + (week - 1) * 7 + (weekday - 1)))
  else none

/-- The text `YYYY-MM-DD`. -/
def Date.isoDigits (d : Date) : List Char :=
  Number.fixedDigits 4 d.year ++ '-' :: Number.fixedDigits 2 d.month ++
    '-' :: Number.fixedDigits 2 d.day

def Date.isoText (d : Date) : String := String.ofList d.isoDigits

end ModelSchema.Calendar
