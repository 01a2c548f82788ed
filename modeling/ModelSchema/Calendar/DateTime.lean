import ModelSchema.Calendar.Date

/-!
# Times of day and offsets

A time of day to the microsecond, an offset from universal time of less than a day, and a date with
both.
-/

namespace ModelSchema.Calendar

/-- Whether the fields name a time of day. -/
def IsTime (hour minute second microsecond : Nat) : Prop :=
  hour ≤ 23 ∧ minute ≤ 59 ∧ second ≤ 59 ∧ microsecond ≤ 999999

structure Time where
  hour : Nat
  minute : Nat
  second : Nat
  microsecond : Nat
  isTime : IsTime hour minute second microsecond
  deriving DecidableEq

namespace Time

/-- The time of the given fields; the first of them that is out of range is named. -/
def make (hour minute second microsecond : Nat) : Except CalendarError Time :=
  if hh : hour ≤ 23 then
    if hm : minute ≤ 59 then
      if hs : second ≤ 59 then
        if hu : microsecond ≤ 999999 then .ok ⟨hour, minute, second, microsecond, hh, hm, hs, hu⟩
        else .error .microsecondOutOfRange
      else .error .secondOutOfRange
    else .error .minuteOutOfRange
  else .error .hourOutOfRange

@[simp] theorem make_self (t : Time) : make t.hour t.minute t.second t.microsecond = .ok t := by
  obtain ⟨hour, minute, second, microsecond, hh, hm, hs, hu⟩ := t
  simp [make, hh, hm, hs, hu]

def midnight : Time := ⟨0, 0, 0, 0, by decide, by decide, by decide, by decide⟩

/-- The last time of a day. -/
def latest : Time := ⟨23, 59, 59, 999999, by decide, by decide, by decide, by decide⟩

/-- The text `:SS`, with the microseconds if there are any. -/
def secondDigits (second microsecond : Nat) : List Char :=
  ':' :: Number.fixedDigits 2 second ++
    (if microsecond = 0 then [] else '.' :: Number.fixedDigits 6 microsecond)

/-- The text `HH:MM:SS`, with the microseconds if there are any. -/
def isoDigits (t : Time) : List Char :=
  Number.fixedDigits 2 t.hour ++ ':' :: Number.fixedDigits 2 t.minute ++
    secondDigits t.second t.microsecond

def microseconds (t : Time) : Nat :=
  ((t.hour * 60 + t.minute) * 60 + t.second) * 1000000 + t.microsecond

end Time

/-- The microseconds of a day. -/
def dayLength : Nat := 86400000000

/-- An offset from universal time, strictly between minus and plus one day. -/
structure Offset where
  microseconds : Int
  inDay : microseconds.natAbs < dayLength
  deriving DecidableEq

namespace Offset

def utc : Offset := ⟨0, by decide⟩

def make (microseconds : Int) : Except CalendarError Offset :=
  if h : microseconds.natAbs < dayLength then .ok ⟨microseconds, h⟩
  else .error (.offsetOutOfRange microseconds)

/-- The text `+HH:MM`, with seconds and microseconds if there are any. -/
def isoDigits (o : Offset) : List Char :=
  let total := o.microseconds.natAbs
  let seconds := total / 1000000
  let fraction := total % 1000000
  (if o.microseconds < 0 then '-' else '+') :: Number.fixedDigits 2 (seconds / 3600) ++
    ':' :: Number.fixedDigits 2 (seconds / 60 % 60) ++
    (if seconds % 60 = 0 ∧ fraction = 0 then [] else Time.secondDigits (seconds % 60) fraction)

end Offset

/-- A date with a time of day and, if it is known, the offset from universal time. -/
structure DateTime where
  date : Date
  time : Time
  offset : Option Offset
  deriving DecidableEq

namespace DateTime

/-- The first time of the calendar. -/
def earliest : DateTime := ⟨Date.earliest, Time.midnight, none⟩

/-- The last time of the calendar. -/
def latest : DateTime := ⟨Date.latest, Time.latest, none⟩

/-- The ISO text with the given character between the date and the time. -/
def digitsWith (separator : Char) (d : DateTime) : List Char :=
  d.date.isoDigits ++ separator :: d.time.isoDigits ++
    (match d.offset with
      | none => []
      | some offset => offset.isoDigits)

def isoText (d : DateTime) : String := String.ofList (d.digitsWith 'T')

def plainText (d : DateTime) : String := String.ofList (d.digitsWith ' ')

/-- The microseconds from the start of the calendar on the clock of the place, less the offset. -/
def instant (d : DateTime) : Int :=
  (d.date.number : Int) * dayLength + d.time.microseconds -
    (match d.offset with
      | none => 0
      | some offset => offset.microseconds)

/-- Two times are the same if both or neither have an offset and they name the same instant. -/
def same (a b : DateTime) : Bool := a.offset.isSome == b.offset.isSome && a.instant == b.instant

end DateTime

/-- A date, or a date with a time of day. -/
inductive Moment where
  | date (d : Date)
  | dateTime (d : DateTime)
  deriving DecidableEq

def Moment.isoText : Moment → String
  | .date d => d.isoText
  | .dateTime d => d.isoText

end ModelSchema.Calendar
