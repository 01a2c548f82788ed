import ModelSchema.Number.IntegerText
import ModelSchema.Value.Access

/-!
# Values of texts

A type may make a value of a text: a number reads it, a collection takes its characters, a truth
value tells whether it has any. The other types have no value of a text.
-/

namespace ModelSchema.TypeObject

/-- The value of a type that is made of a text. -/
def ofText (t : TypeObject) (s : String) : Except Failure Value :=
  match t with
  | .text => .ok (.text s)
  | .boolean => .ok (.bool (s != ""))
  | .integer => match Number.parseInteger s with
    | .ok n => .ok (.int n)
    | .error e => .error (.notInteger e)
  | .real => match Number.readFloat? s with
    | some x => .ok (.float x)
    | none => .error (.notNumber s)
  | .decimal => match Number.Decimal.ofText s with
    | .ok d => .ok (.decimal d)
    | .error e => .error (.notDecimal e)
  | .list => (Value.text s).elements.map .list
  | .tuple => (Value.text s).elements.map .tuple
  | .set => (Value.text s).toSet.map .set
  | .mapping => (Value.text s).rows.map fun rows => .mapping (Table.ofRows rows)
  | .dateTime | .date | .time | .bytes | .complex | .object | .null => .error .typeMismatch

end ModelSchema.TypeObject
