import ModelSchema.Calendar.IsoText
import ModelSchema.Text.Blank

/-!
# Reading loosely written dates

Where the strict reader gives up, months, days, hours and minutes may have a single digit, digits
may be of any script, and a line break may stand at the end.
-/

namespace ModelSchema.Calendar

/-- The values of up to `most` leading digits of any script, and what follows them. -/
def takeDigits : Nat → List Char → List Nat × List Char
  | 0, cs => ([], cs)
  | _ + 1, [] => ([], [])
  | most + 1, c :: rest =>
    match Text.digitValue? c with
    | some d => let (ds, rest) := takeDigits most rest; (d :: ds, rest)
    | none => ([], c :: rest)

/-- The number that a list of decimal digits stands for. -/
def ofDigits (ds : List Nat) : Nat := ds.foldl (fun n d => n * 10 + d) 0

/-- Reads a number of at least `least` and at most `most` digits, as many as there are. -/
def takeNumber? (least most : Nat) (cs : List Char) : Option (Nat × List Char) :=
  let (ds, rest) := takeDigits most cs
  if ds.length < least then none else some (ofDigits ds, rest)

/-- What follows one of the given characters. -/
def dropOneOf? (allowed : List Char) : List Char → Option (List Char)
  | c :: rest => if allowed.contains c then some rest else none
  | [] => none

/-- Whether a text is at its end, or has but a line break left. -/
def atEnd (cs : List Char) : Bool := cs == [] || cs == ['\n']

/-- Reads a year of four digits, a month and a day. -/
def takeLooseDate? (cs : List Char) : Option ((Nat × Nat × Nat) × List Char) := do
  let (year, cs) ← takeNumber? 4 4 cs
  let cs ← dropOneOf? ['-'] cs
  let (month, cs) ← takeNumber? 1 2 cs
  let cs ← dropOneOf? ['-'] cs
  let (day, cs) ← takeNumber? 1 2 cs
  pure ((year, month, day), cs)

/-- The fields of a loosely written date. -/
def readLooseDate? (cs : List Char) : Option (Nat × Nat × Nat) := do
  let (fields, rest) ← takeLooseDate? cs
  if atEnd rest then some fields else none

/-- Reads a fraction of a second: six digits count and six more may follow. Without a digit there is
none. -/
def takeFraction (cs : List Char) : Nat × List Char :=
  match dropOneOf? ['.', ','] cs with
  | none => (0, cs)
  | some rest =>
    let (ds, more) := takeDigits 6 rest
    if ds.isEmpty then (0, cs)
    else (ofDigits ds * Nat.pow 10 (6 - ds.length), (takeDigits 6 more).2)

/-- Reads seconds with their fraction, where there are any. -/
def takeSeconds (cs : List Char) : Nat × Nat × List Char :=
  match (dropOneOf? [':'] cs).bind (takeNumber? 1 2) with
  | none => (0, 0, cs)
  | some (second, rest) =>
    let (microsecond, rest) := takeFraction rest
    (second, microsecond, rest)

/-- Reads the offset at the end of a text, in microseconds: a `Z`, or hours and perhaps minutes of
two digits each. -/
def readLooseOffset? (cs : List Char) : Option (Option Int) :=
  match cs with
  | [] => some none
  | 'Z' :: rest => if atEnd rest then some (some 0) else none
  | sign :: rest =>
    if sign = '+' ∨ sign = '-' then do
      let (hours, rest) ← takeNumber? 2 2 rest
      let minutesText := (dropOneOf? [':'] rest).getD rest
      let (minutes, rest) := (takeNumber? 2 2 minutesText).getD (0, rest)
      if atEnd rest then
        let total : Int := (hours * 60 + minutes : Nat) * 60000000
        some (some (if sign = '-' then -total else total))
      else none
    else none

/-- The fields of a loosely written date with a time. -/
def readLooseDateTime? (cs : List Char) :
    Option ((Nat × Nat × Nat) × ClockFields × Option Int) := do
  let (fields, cs) ← takeLooseDate? cs
  let cs ← dropOneOf? ['T', ' '] cs
  let (hour, cs) ← takeNumber? 1 2 cs
  let cs ← dropOneOf? [':'] cs
  let (minute, cs) ← takeNumber? 1 2 cs
  let (second, microsecond, cs) := takeSeconds cs
  let offset ← readLooseOffset? (cs.dropWhile Text.isBlank)
  pure (fields, ⟨hour, minute, second, microsecond⟩, offset)

/-- Every `Z` replaced by the offset of universal time. -/
def spellOutZ (s : String) : String :=
  String.ofList (s.toList.flatMap fun c => if c = 'Z' then "+00:00".toList else [c])

/-- Reads a date or a date with a time. The readers are tried in turn: the strict and the loose one
of dates, the strict and the loose one of dates with times, and last the strict one with every `Z`
spelt out. A loosely written text whose fields are out of range is not tried further. -/
def Moment.ofText (s : String) : Except CalendarError Moment :=
  let cs := s.toList
  match Date.ofIso s with
  | .ok d => .ok (.date d)
  | .error _ =>
    match readLooseDate? cs with
    | some (year, month, day) => .date <$> Date.make year month day
    | none =>
      match DateTime.ofIso s with
      | .ok d => .ok (.dateTime d)
      | .error _ =>
        match readLooseDateTime? cs with
        | some (fields, clock, offset) => .dateTime <$> DateTime.ofFields fields clock offset
        | none => .dateTime <$> DateTime.ofIso (spellOutZ s)

end ModelSchema.Calendar
