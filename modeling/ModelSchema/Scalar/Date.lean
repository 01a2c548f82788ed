import ModelSchema.Calendar.LooseText
import ModelSchema.Scalar.Literal

/-!
# The date scalar

Dates with and without times go out in their ISO form. A text that comes in decides by its form
which of the two it stands for.
-/

namespace ModelSchema.DateScalar

/-- The moment that a value is. -/
def moment? : Value → Option Calendar.Moment
  | .date d => some (.date d)
  | .dateTime d => some (.dateTime d)
  | _ => none

/-- A moment as a value. -/
def ofMoment : Calendar.Moment → Value
  | .date d => .date d
  | .dateTime d => .dateTime d

/-- The ISO text of a date. -/
def serialize (v : Value) : Except Failure String :=
  match moment? v with
  | some m => .ok m.isoText
  | none => .error (.notDate v.typeName)

/-- The date of a text. -/
def readText (s : String) : Except Failure Value :=
  match Calendar.Moment.ofText s with
  | .ok m => .ok (ofMoment m)
  | .error e => .error (.dateUnreadable e)

/-- The date that comes in. -/
def parseValue : Value → Except Failure Value
  | .text s => readText s
  | v => .error (.notDateText v.typeName)

/-- The date of a literal, which has to be a text. -/
def parseLiteral : Literal → Except Failure Value
  | .text s => readText s
  | node => .error (.unsupportedLiteral node.kind "Date")

end ModelSchema.DateScalar
