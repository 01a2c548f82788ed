import ModelSchema.Number.IntegerText

/-!
# Errors of JSON

Why a text is not JSON and where it stops being so, and why a value has no JSON text.
-/

namespace ModelSchema.Json

inductive Problem where
  | expectedValue | expectedPropertyName | expectedColon | expectedComma | unterminatedString
  | controlCharacter | unknownEscape | badUnicodeEscape | extraData | byteOrderMark
  /-- An integer that is spelt correctly, but with more digits than are read. -/
  | longInteger (digits : Nat)
  deriving DecidableEq

def Problem.message : Problem → String
  | .expectedValue => "Expecting value"
  | .expectedPropertyName => "Expecting property name enclosed in double quotes"
  | .expectedColon => "Expecting ':' delimiter"
  | .expectedComma => "Expecting ',' delimiter"
  | .unterminatedString => "Unterminated string starting at"
  | .controlCharacter => "Invalid control character at"
  | .unknownEscape => "Invalid \\escape"
  | .badUnicodeEscape => "Invalid \\uXXXX escape"
  | .extraData => "Extra data"
  | .byteOrderMark => "Unexpected UTF-8 BOM (decode using utf-8-sig)"
  | .longInteger digits => (Number.IntegerError.textTooLong digits).message

/-- A problem and the number of characters before it. -/
structure ReadError where
  problem : Problem
  position : Nat
  deriving DecidableEq

/-- The line of a position and its column in the line, both counted from one. -/
def lineAndColumn (text : List Char) (position : Nat) : Nat × Nat :=
  let before := text.take position
  (before.count '\n' + 1, (before.reverse.takeWhile (· != '\n')).length + 1)

/-- The problem with its place in the text. -/
def ReadError.message (text : List Char) (e : ReadError) : String :=
  let (line, column) := lineAndColumn text e.position
  e.problem.message ++ ": line " ++ Number.naturalText line ++
    " column " ++ Number.naturalText column ++
    " (char " ++ Number.naturalText e.position ++ ")"

/-- Why a value has no JSON text. -/
inductive WriteError where
  /-- A key of a mapping is of a type that cannot be the name of a property. -/
  | badKey (typeName : String)
  /-- The keys of a mapping have no order. -/
  | unorderedKeys
  /-- Two keys are numbers and one of them is not a number. -/
  | undefinedComparison
  | circular
  | unknownType (typeName : String)
  /-- An integer has more digits than are written. -/
  | longInteger
  deriving DecidableEq

def WriteError.message : WriteError → String
  | .badKey typeName => "keys must be str, int, float, bool or None, not " ++ typeName
  | .unorderedKeys => "keys have no order"
  | .undefinedComparison => "[<class 'decimal.InvalidOperation'>]"
  | .circular => "Circular reference detected"
  | .unknownType typeName => "Object of type " ++ typeName ++ " is not JSON serializable"
  | .longInteger => Number.IntegerError.integerTooLong.message

end ModelSchema.Json
