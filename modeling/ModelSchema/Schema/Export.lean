import ModelSchema.Schema.Descriptor

/-!
# The exported form

What other programs see of a schema: a mapping from type names to the parts that the category of
each type calls for. Resolvers and marks of consumption are not exported.
-/

namespace ModelSchema

/-- A text where there is one. -/
def Value.ofText? : Option String → Value
  | none => .null
  | some s => .text s

def Argument.exported (a : Argument) : Value :=
  .mapping [(.text "type", .text a.typeName), (.text "description", a.description)]

def Field.exported (f : Field) : Value :=
  .mapping
    [(.text "type", .ofText? f.typeName),
     (.text "list", .bool f.isList),
     (.text "scalar", .bool f.isScalar),
     (.text "scalar_kind", .ofText? (f.scalarKind.map ScalarKind.name)),
     (.text "relation", .bool f.isRelation),
     (.text "connection", .bool f.isConnection),
     (.text "relation_kind", .ofText? f.relationKind),
     (.text "embed", .bool f.embed),
     (.text "required", .bool f.isRequired),
     (.text "hidden", .bool f.isHidden),
     (.text "nested_type", .ofText? f.nestedTypeName),
     (.text "description", f.description),
     (.text "args", .mapping (f.arguments.map fun row => (row.1, row.2.exported)))]

def TypeDescriptor.exported (t : TypeDescriptor) : Value :=
  .mapping
    ([(.text "name", t.name), (.text "category", .text t.category.name),
      (.text "description", t.description)] ++
      match t.category with
      | .object =>
        [(.text "input", .bool t.input),
         (.text "fields", .mapping (t.fields.map fun row => (row.1, row.2.exported)))]
      | .enum =>
        [(.text "values", .list t.values),
         (.text "scalar_kind", .ofText? (t.scalarKind.map ScalarKind.name))]
      | .union => [(.text "members", .list (t.members.map .text))])

end ModelSchema
