import ModelSchema.Declaration.DeclaredType

/-!
# Property declarations

A property is declared by a type alone or by a description that has a `type` among other things. The
descriptions may be mappings or attribute objects; a mapping without a `type` is itself the
anonymous structure.
-/

namespace ModelSchema

/-- A declared property of a model or of an anonymous structure. -/
structure Property where
  name : Value
  type : DeclaredType
  required : Bool := false
  deprecated : Bool := false
  /-- The values that the property is restricted to, if it is. -/
  enum : Option (List Value) := none
  /-- The name of what generates the value of the property by default. -/
  defaultGenerator : Option String := none
  description : Value := .null

namespace Property

/-- The items of a list of allowed values, if there are any. -/
def readEnum (raw : Value) : Except Failure (Option (List Value)) :=
  if raw.isTrue then raw.elements.map some else .ok none

/-- Reads a description that has a type. -/
def ofDescription (name raw : Value) : Except Failure Property := do
  let type ← DeclaredType.ofValue (raw.read ["type"])
  let enum ← readEnum (raw.read ["enum"])
  let generator := raw.read ["default_fn", "defaultFn"]
  pure
    { name, type, enum
      required := (raw.read ["required"]).isTrue
      deprecated := (raw.read ["deprecated"]).isTrue
      defaultGenerator := if generator.isTrue then some generator.plain else none
      description := raw.read ["description"] }

/-- Reads a property from its raw declaration. -/
def ofValue (name raw : Value) : Except Failure Property :=
  match raw.member? "type" with
  | some _ => ofDescription name raw
  | none =>
    if raw.isMapping then .ok { name, type := .embedded raw .null [] }
    else (DeclaredType.ofValue raw).map fun type => { name, type }

/-- Reads the properties of a list of raw declarations, in order. -/
def ofEntries : List (Value × Value) → Except Failure (List (Value × Property))
  | [] => .ok []
  | (name, raw) :: rest =>
    (ofValue name raw).bind fun p => (ofEntries rest).map ((name, p) :: ·)

/-- Reads the properties that a mapping of raw declarations holds, in order. -/
def ofMapping (raw : Value) : Except Failure (List (Value × Property)) := raw.items.bind ofEntries

/-- A property declaration as a value. -/
def toValue (p : Property) : Value :=
  .record "PropertyDeclaration"
    [("name", p.name), ("type", p.type.toValue), ("required", .bool p.required),
     ("deprecated", .bool p.deprecated),
     ("enum", match p.enum with | none => .null | some values => .tuple values),
     ("default_fn", match p.defaultGenerator with | none => .null | some name => .text name),
     ("description", p.description)]

end Property

end ModelSchema
