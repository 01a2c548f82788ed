import ModelSchema.Number.Spelling
import ModelSchema.Text.Quoted

/-!
# Reading integers

An integer text may have blanks around it, a sign, digits of any script, and single underscores
between digits. A text with too many digits is refused before it is looked at any further.
-/

namespace ModelSchema.Number

/-- Reads digits after a value already read; an underscore must stand between two digits. -/
def readUnderscored (value : Nat) : List Char → Option Nat
  | [] => some value
  | '_' :: c :: rest =>
    (Text.digitValue? c).bind fun d => readUnderscored (value * 10 + d) rest
  | c :: rest => (Text.digitValue? c).bind fun d => readUnderscored (value * 10 + d) rest

/-- Reads one digit and then digits with underscores between them. -/
def readNatural? : List Char → Option Nat
  | [] => none
  | c :: rest => (Text.digitValue? c).bind fun d => readUnderscored d rest

/-- Reads an integer text of any length. -/
def readInteger? (cs : List Char) : Option Int :=
  match trimNumber cs with
  | '-' :: rest => (readNatural? rest).map fun n => -(n : Int)
  | '+' :: rest => (readNatural? rest).map fun n => (n : Int)
  | rest => (readNatural? rest).map fun n => (n : Int)

/-- Why an integer and a text are not made of one another. -/
inductive IntegerError where
  | notInteger (text : String)
  | textTooLong (digits : Nat)
  | integerTooLong
  deriving DecidableEq

namespace IntegerError

/-- The number of characters that are shown of a quoted text that is no integer. -/
def quotedLimit : Nat := 200

def limitMessage (detail : String) : String :=
  "Exceeds the limit (" ++ naturalText digitLimit ++ " digits) for integer string conversion" ++
    detail ++ "; use sys.set_int_max_str_digits() to increase the limit"

def message : IntegerError → String
  | .notInteger text =>
    "invalid literal for int() with base 10: " ++
      String.ofList ((Text.quote text).toList.take quotedLimit)
  | .textTooLong digits => limitMessage (": value has " ++ naturalText digits ++ " digits")
  | .integerTooLong => limitMessage ""

end IntegerError

/-- The digits behind the sign of an integer text, with the underscores between them. -/
def headDigits (cs : List Char) : List Char :=
  (takeSign (trimNumber cs)).2.takeWhile fun c => c == '_' || (Text.digitValue? c).isSome

/-- How many digits an integer text has. What follows them makes no difference. -/
def textDigits (cs : List Char) : Nat := (headDigits cs).countP (· != '_')

/-- The integer that a text stands for. A misplaced underscore counts more than the limit. -/
def parseInteger (s : String) : Except IntegerError Int :=
  if digitLimit < textDigits s.toList && (readNatural? (headDigits s.toList)).isSome then
    .error (.textTooLong (textDigits s.toList))
  else match readInteger? s.toList with
    | some n => .ok n
    | none => .error (.notInteger s)

end ModelSchema.Number
