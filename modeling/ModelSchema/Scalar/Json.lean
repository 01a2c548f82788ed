import ModelSchema.Json.Reader
import ModelSchema.Json.Writer
import ModelSchema.Scalar.Literal

/-!
# The opaque scalar

Values of any shape go out as JSON texts. They come in as JSON texts or as they are; among the
literals of a query only a text that stands alone is read as JSON.
-/

namespace ModelSchema.JsonScalar

/-- The JSON text of a value. -/
def serialize (v : Value) : Except Failure String :=
  match Json.readableText v with
  | .ok text => .ok text
  | .error e => .error (.jsonUnwritable e)

/-- The value of a JSON text. -/
def readText (s : String) : Except Failure Value :=
  match Json.read s.toList with
  | .ok v => .ok v
  -- an integer that is too long is no fault of the text
  | .error ⟨.longInteger digits, _⟩ => .error (.notInteger (.textTooLong digits))
  | .error e => .error (.jsonUnreadable s.toList e)

/-- The value that comes in: what a text says, or the value itself. -/
def parseValue : Value → Except Failure Value
  | .text s => readText s
  | v => .ok v

/-- The value of a literal. -/
def parseLiteral (bindings : Value) : Literal → Except Failure Value
  | .text s => readText s
  | node => node.value bindings

end ModelSchema.JsonScalar
