import ModelSchema.Number.Digits
import ModelSchema.Text.Quoted

/-!
# Errors of the calendar

The reasons why a text or a group of fields names no moment, and their wording.
-/

namespace ModelSchema.Calendar

/-- Why a text or a group of fields names no moment. -/
inductive CalendarError where
  | yearOutOfRange (year : Nat)
  | monthOutOfRange
  | dayOutOfRange
  | hourOutOfRange
  | minuteOutOfRange
  | secondOutOfRange
  | microsecondOutOfRange
  | offsetOutOfRange (microseconds : Int)
  | notIso (text : String)
  deriving DecidableEq

/-- The parts of a duration as a message shows them: days, which alone may be negative, seconds and
microseconds, each only if it is not zero. -/
def durationParts (microseconds : Int) : List String :=
  let days := microseconds / 86400000000
  let rest := microseconds % 86400000000
  let part (name : String) (n : Int) : List String :=
    if n = 0 then [] else [name ++ "=" ++ Number.integerText n]
  part "days" days ++ part "seconds" (rest / 1000000) ++ part "microseconds" (rest % 1000000)

/-- A duration as a message shows it. -/
def durationText (microseconds : Int) : String :=
  let parts := durationParts microseconds
  "datetime.timedelta(" ++ (if parts.isEmpty then "0" else ", ".intercalate parts) ++ ")"

def CalendarError.message : CalendarError → String
  | .yearOutOfRange year => "year " ++ Number.naturalText year ++ " is out of range"
  | .monthOutOfRange => "month must be in 1..12"
  | .dayOutOfRange => "day is out of range for month"
  | .hourOutOfRange => "hour must be in 0..23"
  | .minuteOutOfRange => "minute must be in 0..59"
  | .secondOutOfRange => "second must be in 0..59"
  | .microsecondOutOfRange => "microsecond must be in 0..999999"
  | .offsetOutOfRange microseconds =>
    "offset must be a timedelta strictly between -timedelta(hours=24) and " ++
      "timedelta(hours=24), not " ++
      durationText microseconds ++ "."
  | .notIso text => "Invalid isoformat string: " ++ Text.quote text

end ModelSchema.Calendar
