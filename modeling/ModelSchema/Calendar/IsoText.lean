import ModelSchema.Calendar.DateTime

/-!
# Reading ISO 8601 text

The strict reader: a date in digits or as a week, then any one character, then a time of day and an
offset in any of the spellings of the standard. A text ends at its end or at the character NUL, and
what stands behind a date of eight digits is not looked at.
-/

namespace ModelSchema.Calendar

/-- The character at the head of a text; behind the end there are NULs. -/
def peek (cs : List Char) : Char := cs.headD '\x00'

/-- Reads exactly `count` of the digits `0` to `9` after a value already read. -/
def takeFixed (value : Nat) : Nat → List Char → Option (Nat × List Char)
  | 0, cs => some (value, cs)
  | _ + 1, [] => none
  | count + 1, c :: rest => (Text.asciiDigit? c).bind fun d => takeFixed (value * 10 + d) count rest

theorem takeFixed_append (count value n : Nat) (cs rest : List Char) (hl : cs.length = count)
    (h : Number.readDigits value cs = some n) :
    takeFixed value count (cs ++ rest) = some (n, rest) := by
  induction cs generalizing value count with
  | nil =>
    obtain rfl : count = 0 := by simpa using hl.symm
    simpa [takeFixed, Number.readDigits] using h
  | cons c cs ih =>
    obtain ⟨count, rfl⟩ : ∃ k, count = k + 1 := ⟨cs.length, by simpa using hl.symm⟩
    simp only [List.length_cons, Nat.add_right_cancel_iff] at hl
    simp only [Number.readDigits] at h
    split at h
    · rename_i d hd
      simpa [takeFixed, hd] using ih count _ hl h
    · simp at h

theorem takeFixed_fixedDigits (width n : Nat) (rest : List Char) (h : n < Nat.pow 10 width) :
    takeFixed 0 width (Number.fixedDigits width n ++ rest) = some (n, rest) :=
  takeFixed_append _ _ _ _ _ (Number.length_fixedDigits width n)
    (by simpa using Number.readDigits_fixedDigits width n 0 h)

/-- What follows a dash, where one is expected. -/
def dropDash? : List Char → Option (List Char)
  | '-' :: rest => some rest
  | _ => none

/-- The year, month and day that the first `length` bytes of a text name. The fields need not form a
date. A week without a day means its Monday. -/
def readDateFields? (length : Nat) (cs : List Char) : Option (Nat × Nat × Nat) :=
  (takeFixed 0 4 cs).bind fun (year, cs) =>
  let dashed := peek cs = '-'
  let cs := if dashed then cs.drop 1 else cs
  if peek cs = 'W' then
    (takeFixed 0 2 (cs.drop 1)).bind fun (week, cs) =>
    if (if dashed then 8 else 7) < length then
      (if dashed then dropDash? cs else some cs).bind fun cs =>
      (takeFixed 0 1 cs).bind fun (weekday, _) => ofWeek? year week weekday
    else ofWeek? year week 1
  else
    (takeFixed 0 2 cs).bind fun (month, cs) =>
    (if dashed then dropDash? cs else some cs).bind fun cs =>
    (takeFixed 0 2 cs).map fun (day, _) => (year, month, day)

/-- The fields of a time of day. They need not be in range. -/
structure ClockFields where
  hour : Nat := 0
  minute : Nat := 0
  second : Nat := 0
  microsecond : Nat := 0
  deriving DecidableEq

/-- The whole fields of a clock text, and either whether the text ended with them or the fraction
that follows. -/
inductive ClockText where
  | ended (values : List Nat) (complete : Bool)
  | fraction (values : List Nat) (rest : List Char)

def ClockText.cons (value : Nat) : ClockText → ClockText
  | .ended values complete => .ended (value :: values) complete
  | .fraction values rest => .fraction (value :: values) rest

/-- Reads up to `count` fields of two digits. Colons stand between all of them or between none;
`next` is the character behind the text. A single character of ASCII behind a field ends the text,
which is then not complete. -/
def readClockText? (next : Char) : Nat → Option Bool → List Char → Option ClockText
  | 0, _, cs => some (.fraction [] cs)
  | count + 1, separated, cs =>
    (takeFixed 0 2 cs).bind fun (value, rest) =>
    match rest with
    | [] => some (.ended [value] (next == '\x00'))
    | [c] => if c.toNat < 0x80 then some (.ended [value] (c == '\x00')) else none
    | c :: more =>
      let colons := separated.getD (c == ':')
      if colons && c == ':' then (readClockText? next count (some true) more).map (.cons value)
      else if c == '.' || c == ',' then some (.fraction [value] more)
      else if colons then none
      else (readClockText? next count (some false) rest).map (.cons value)

/-- The clock of the whole fields and the microseconds. -/
def ClockFields.ofValues (values : List Nat) (microsecond : Nat) : ClockFields :=
  ⟨values.getD 0 0, values.getD 1 0, values.getD 2 0, microsecond⟩

/-- Reads a clock text and tells whether it is complete. Of a fraction six digits count. -/
def readClock? (next : Char) (cs : List Char) : Option (ClockFields × Bool) :=
  (readClockText? next 3 none cs).bind fun
    | .ended values complete => some (.ofValues values 0, complete)
    | .fraction values rest =>
      let count := min 6 rest.length
      (takeFixed 0 count rest).map fun (value, rest) =>
        let behind := rest.dropWhile fun c => (Text.asciiDigit? c).isSome
        (.ofValues values (value * Nat.pow 10 (6 - count)), behind.headD next == '\x00')

/-- The microseconds of an offset text. Less than a second counts as nothing. -/
def offsetMicroseconds (negative : Bool) (clock : ClockFields) : Int :=
  let seconds := clock.hour * 3600 + clock.minute * 60 + clock.second
  if seconds = 0 then 0
  else
    let total : Int := seconds * 1000000 + clock.microsecond
    if negative then -total else total

/-- The characters that start an offset. -/
def startsOffset (c : Char) : Bool := c == '+' || c == '-' || c == 'Z'

/-- Reads a time of day and its offset in microseconds, if it has one. -/
def readTimeFields? (cs : List Char) : Option (ClockFields × Option Int) :=
  let clockText := cs.takeWhile fun c => !startsOffset c
  match cs.dropWhile fun c => !startsOffset c with
  | [] =>
    (readClock? '\x00' clockText).bind fun (clock, complete) =>
      if complete then some (clock, none) else none
  | sign :: zone =>
    (readClock? sign clockText).bind fun (clock, _) =>
      if sign == 'Z' then
        if peek zone == '\x00' then some (clock, some 0) else none
      else
        (readClock? '\x00' zone).bind fun (offset, complete) =>
          if complete then some (clock, some (offsetMicroseconds (sign == '-') offset)) else none

/-- The position of the character between the date and the time. A text of seven characters is all
date. Behind a year and a `W` the number of digits tells whether a weekday follows; behind a week
with dashes a digit after the next dash tells that this dash separates. -/
def separatorIndex? (cs : List Char) : Option Nat :=
  let at_ (i : Nat) := cs.getD i '\x00'
  let isDigit (c : Char) := (Text.asciiDigit? c).isSome
  if cs.length = 7 then some 7
  else if at_ 4 = '-' then
    if at_ 5 = 'W' then
      if cs.length < 8 then none
      else if at_ 8 = '-' then
        if cs.length = 9 then none else if isDigit (at_ 10) then some 8 else some 10
      else some 8
    else some 10
  else if at_ 4 = 'W' then
    let stop := 7 + ((cs.drop 7).takeWhile isDigit).length
    if stop < 9 then some stop else if stop % 2 = 0 then some 7 else some 8
  else some 8

/-- Builds a moment from its fields. The offset is checked first, then the date, then the time. -/
def DateTime.ofFields (fields : Nat × Nat × Nat) (clock : ClockFields) (offset : Option Int) :
    Except CalendarError DateTime := do
  let offset ← match offset with
    | none => pure none
    | some microseconds => some <$> Offset.make microseconds
  let date ← Date.make fields.1 fields.2.1 fields.2.2
  let time ← Time.make clock.hour clock.minute clock.second clock.microsecond
  pure ⟨date, time, offset⟩

/-- Reads a date. Only texts of seven, eight or ten bytes can be dates. -/
def Date.ofIso (s : String) : Except CalendarError Date :=
  let length := s.utf8ByteSize
  if length = 7 ∨ length = 8 ∨ length = 10 then
    match readDateFields? length s.toList with
    | some (year, month, day) => Date.make year month day
    | none => .error (.notIso s)
  else .error (.notIso s)

/-- The fields of a date with a time. -/
def readDateTimeFields? (cs : List Char) :
    Option ((Nat × Nat × Nat) × ClockFields × Option Int) :=
  (separatorIndex? cs).bind fun index =>
  (readDateFields? index cs).bind fun fields =>
  if index < cs.length then
    (readTimeFields? (cs.drop (index + 1))).map fun (clock, offset) => (fields, clock, offset)
  else some (fields, {}, none)

/-- Reads a date with a time. A date alone means its midnight. -/
def DateTime.ofIso (s : String) : Except CalendarError DateTime :=
  match readDateTimeFields? s.toList with
  | some (fields, clock, offset) => DateTime.ofFields fields clock offset
  | none => .error (.notIso s)

end ModelSchema.Calendar
