import ModelSchema.Value.Access

/-!
# Declared types

A declaration names the type of a property in many shapes. They are brought into one form when the
declaration is read: a scalar, an untyped array, a list of another type, a reference to one model or
several, an anonymous structure, or a type that no descriptor can express. The properties of an
anonymous structure stay raw until a compiler descends into them, so that a structure may contain
itself.
-/

namespace ModelSchema

inductive DeclaredType where
  /-- A name that stands for a scalar kind. -/
  | scalar (name : String)
  | untypedArray
  | listOf (item : DeclaredType)
  /-- The name of a model, or of several with bars between them. -/
  | reference (name : String)
  | embedded (rawProperties name : Value) (hidden : List Value)
  | unsupported (name : Value)

/-- The name of the shape of a model as a value. -/
def modelShape : String := "ModelDefinition"

/-- The name of the model that a raw description describes or refers to. -/
def modelName? (raw : Value) : Option String :=
  match raw with
  | .null => none
  | .text s => some s
  | raw =>
    let name := raw.read ["model_name", "modelName", "name"]
    match raw with
    | .record shape _ => if shape = modelShape || name.isTrue then some name.plain else none
    | _ => if name.isTrue then some name.plain else none

namespace DeclaredType

/-- The parts of a name between bars, trimmed, without the empty ones. -/
def unionParts (name : String) : List String :=
  ((Text.pieces '|' name.toList).map fun piece => String.ofList (Text.trimBlanks piece)).filter
    (· != "")

/-- The name of the untyped array, in small letters. -/
def arrayName : String := "array"

/-- The type that a declared name stands for. A single part between bars is meant by itself. -/
def ofName (declared : String) : DeclaredType :=
  let trimmed := Text.trim declared
  let name := match unionParts trimmed with
    | [part] => part
    | _ => trimmed
  if Text.foldAsciiCase name = arrayName then .untypedArray
  else if (ScalarKind.ofDeclared? name).isSome then .scalar name
  else .reference name

/-- The type that a type object stands for. -/
def ofTypeObject : TypeObject → DeclaredType
  | .text => .scalar "string"
  | .integer | .real => .scalar "number"
  | .boolean => .scalar "boolean"
  | .mapping => .scalar "object"
  | .dateTime | .date => .scalar "date"
  | .list => .untypedArray
  | t => .unsupported (.text t.name)

/-- The anonymous structure that a mapping declares: by its `properties`, or by all of itself. -/
def ofMapping (raw : Value) : Except Failure DeclaredType :=
  match raw.member? "properties" with
  | some properties => (raw.read ["hidden"]).toSet.map (.embedded properties (raw.read ["name"]))
  | none => .ok (.embedded raw .null [])

/-- The type that any other value stands for: the model that it describes, if it has a name. -/
def ofDescription (raw : Value) : DeclaredType :=
  match modelName? raw with
  | some name =>
    if name = "" then .unsupported ((raw.attribute? "__name__").getD (.text raw.quoted))
    else .reference name
  | none => .unsupported ((raw.attribute? "__name__").getD (.text raw.quoted))

mutual

/-- The type that a raw declaration stands for. A list stands for a list of what its first item
stands for. -/
def ofValue (raw : Value) : Except Failure DeclaredType :=
  match raw with
  | .type t => .ok (ofTypeObject t)
  | .list items => ofItems items
  | .tuple items => ofItems items
  | .text declared => .ok (ofName declared)
  | .mapping entries => ofMapping (.mapping entries)
  | .knot before key after form => ofMapping (.knot before key after form)
  | raw => .ok (ofDescription raw)
termination_by structural raw

/-- The type that a list of raw declarations stands for. -/
def ofItems (items : List Value) : Except Failure DeclaredType :=
  match items with
  | [] => .ok .untypedArray
  | first :: _ => (ofValue first).map .listOf
termination_by structural items

end

/-- The models that a reference names. -/
def referenceNames : DeclaredType → List String
  | .reference name => unionParts name
  | _ => []

/-- Whether a reference names several models. -/
def isUnion (t : DeclaredType) : Bool := 1 < t.referenceNames.length

/-- A declared type as a value. -/
def toValue : DeclaredType → Value
  | .scalar name => .record "ScalarType" [("name", .text name)]
  | .untypedArray => .record "UntypedArray" []
  | .listOf item => .record "ListOf" [("item", item.toValue)]
  | .reference name => .record "ModelReference" [("name", .text name)]
  | .embedded rawProperties name hidden =>
    .record "AnonymousEmbedded"
      [("raw_properties", rawProperties), ("name", name), ("hidden", .set hidden)]
  | .unsupported name => .record "UnsupportedType" [("name", name)]

/-- How a message calls a declared type: by its name, or else by all that it is. -/
def label (t : DeclaredType) : String :=
  match t with
  | .scalar name | .reference name => name
  | .embedded _ name _ | .unsupported name => name.plain
  | t => t.toValue.quoted

end DeclaredType

end ModelSchema
