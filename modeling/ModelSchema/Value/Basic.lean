import ModelSchema.Calendar.DateTime
import ModelSchema.Number.Decimal

/-!
# Values

Declarations, settings, query arguments and query results are all free-form values. The kinds of a
value matter: a mapping looks its entries up by key, an attribute object by name; a list and a tuple
with the same items differ; a record is a value of a named shape with fixed fields.

A text is a sequence of Unicode scalar values: half of a surrogate pair is no character of it. Lists
and tuples are finite: none contains itself, and no mapping contains itself through one. A mapping
keeps its entries in the order in which their keys were first written, and its keys are distinct. It
may contain itself, or be the `type` of what it holds; such a knot is kept folded up and is unfolded
one level at a time.
-/

namespace ModelSchema

/-- The type objects that a declaration may name. -/
inductive TypeObject where
  | text | integer | real | boolean | mapping | list | dateTime | date | bytes | decimal | tuple
  | set | time | complex | object | null
  deriving DecidableEq

namespace TypeObject

def all : List TypeObject :=
  [.text, .integer, .real, .boolean, .mapping, .list, .dateTime, .date, .bytes, .decimal, .tuple,
   .set, .time, .complex, .object, .null]

/-- The name of a type, as it is written in declarations and messages. -/
def name : TypeObject → String
  | .text => "str"
  | .integer => "int"
  | .real => "float"
  | .boolean => "bool"
  | .mapping => "dict"
  | .list => "list"
  | .dateTime => "datetime"
  | .date => "date"
  | .bytes => "bytes"
  | .decimal => "Decimal"
  | .tuple => "tuple"
  | .set => "set"
  | .time => "time"
  | .complex => "complex"
  | .object => "object"
  | .null => "NoneType"

/-- The collection of types that a type belongs to. -/
def collection : TypeObject → String
  | .dateTime | .date | .time => "datetime"
  | .decimal => "decimal"
  | _ => "builtins"

/-- The name of a type behind the name of its collection, unless that is the general one. -/
def qualifiedName (t : TypeObject) : String :=
  match t with
  | .dateTime | .date | .time | .decimal => t.collection ++ "." ++ t.name
  | _ => t.name

/-- The types that a type is a special case of, the closest first. -/
def ancestors : TypeObject → List TypeObject
  | .boolean => [.integer, .object]
  | .dateTime => [.date, .object]
  | .object => []
  | _ => [.object]

/-- The type with a given name. -/
def ofName? (name : String) : Option TypeObject := all.find? fun t => t.name == name

theorem ofName?_name (t : TypeObject) : ofName? t.name = some t := by cases t <;> decide

end TypeObject

/-- How a knot holds itself. -/
inductive KnotForm where
  /-- Under its key. -/
  | direct
  /-- Under its key there is a mapping that holds the knot under `type`. -/
  | wrapped
  /-- The knot is the mapping that a wrapped one has under its key. -/
  | wrapper
  deriving DecidableEq

inductive Value where
  | null
  | bool (b : Bool)
  | int (n : Int)
  | float (x : Number.Binary64)
  | text (s : String)
  | list (items : List Value)
  | tuple (items : List Value)
  | mapping (entries : List (Value × Value))
  /-- A mapping that contains itself between the entries `before` and `after`. -/
  | knot (before : List (Value × Value)) (key : Value) (after : List (Value × Value))
    (form : KnotForm)
  | object (attributes : List (String × Value))
  /-- A value of a named shape with the fields that the shape has, in their order. -/
  | record (shape : String) (fields : List (String × Value))
  | set (items : List Value)
  | type (t : TypeObject)
  | date (d : Calendar.Date)
  | dateTime (d : Calendar.DateTime)
  | decimal (d : Number.Decimal)
  | bytes (content : List UInt8)
  /-- A member of a named enumeration, of which only the text is known. -/
  | enumerator (enumeration written : String)

namespace Value

instance : Inhabited Value := ⟨.null⟩

/-- The name of the type of a value. -/
def typeName : Value → String
  | .null => TypeObject.null.name
  | .bool _ => TypeObject.boolean.name
  | .int _ => TypeObject.integer.name
  | .float _ => TypeObject.real.name
  | .text _ => TypeObject.text.name
  | .list _ => TypeObject.list.name
  | .tuple _ => TypeObject.tuple.name
  | .mapping _ => TypeObject.mapping.name
  | .knot .. => TypeObject.mapping.name
  | .object _ => "SimpleNamespace"
  | .record shape _ => shape
  | .set _ => "frozenset"
  | .type _ => "type"
  | .date _ => TypeObject.date.name
  | .dateTime _ => TypeObject.dateTime.name
  | .decimal _ => TypeObject.decimal.name
  | .bytes _ => TypeObject.bytes.name
  | .enumerator enumeration _ => enumeration

/-- The type of a value, if a declaration may name it. -/
def typeObject? : Value → Option TypeObject
  | .null => some .null
  | .bool _ => some .boolean
  | .int _ => some .integer
  | .float _ => some .real
  | .text _ => some .text
  | .list _ => some .list
  | .tuple _ => some .tuple
  | .mapping _ | .knot .. => some .mapping
  | .date _ => some .date
  | .dateTime _ => some .dateTime
  | .decimal _ => some .decimal
  | .bytes _ => some .bytes
  | .object _ | .record .. | .set _ | .type _ | .enumerator .. => none

/-- The name of the type of a value with the collection that the type belongs to. -/
def qualifiedTypeName : Value → String
  | .date _ => TypeObject.date.qualifiedName
  | .dateTime _ => TypeObject.dateTime.qualifiedName
  | .decimal _ => TypeObject.decimal.qualifiedName
  | .object _ => "types.SimpleNamespace"
  | v => v.typeName

/-- Whether a value counts as true: zero, empty and missing things do not. -/
def isTrue : Value → Bool
  | .null => false
  | .bool b => b
  | .int n => n != 0
  | .float x => !x.isZero
  | .text s => s != ""
  | .list items => !items.isEmpty
  | .tuple items => !items.isEmpty
  | .mapping entries => !entries.isEmpty
  | .set items => !items.isEmpty
  | .decimal d => !d.isZero
  | .bytes content => !content.isEmpty
  | _ => true

end Value

end ModelSchema
