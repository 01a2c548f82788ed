import ModelSchema.Schema.Descriptor
import ModelSchema.Settings
import ModelSchema.Trace

/-!
# Fields of relations

A relation becomes a field that lists the related instances page by page. The field accepts the
arguments that choose a page and, before them, one that filters the instances.
-/

namespace ModelSchema

/-- The argument by which a relation is filtered. -/
def filterArgument : Argument :=
  { typeName := ScalarKind.json.name
    description := .text "Free-form filter forwarded to the relation lookup" }

/-- The arguments that choose a page, by name. -/
def pageArguments : List (Value × Argument) :=
  [(.text "after",
      { typeName := "String"
        description :=
          .text "Returns the items in the list that come after the specified cursor." }),
   (.text "first",
      { typeName := "Int", description := .text "Returns the first n items from the list." }),
   (.text "before",
      { typeName := "String"
        description :=
          .text "Returns the items in the list that come before the specified cursor." }),
   (.text "last",
      { typeName := "Int", description := .text "Returns the last n items from the list." })]

/-- The arguments of a field that lists instances. The name of the filter, if there is one, comes
first, but a page argument of that name takes its place. -/
def connectionArguments (filterName : Value) : Except Failure (List (Value × Argument)) :=
  if filterName.isTrue then
    if filterName.isHashable then .ok (Table.merge [(filterName, filterArgument)] pageArguments)
    else .error .typeMismatch
  else .ok pageArguments

/-- The field of a relation. -/
def Field.ofRelation (relation : Relation) (arguments : List (Value × Argument)) : Field :=
  { name := .text relation.name
    typeName := relation.target
    isList := true
    isRelation := true
    isConnection := true
    relationKind := some relation.kind.name
    embed := relation.embed
    arguments
    resolver := some (.relation relation) }

/-- Compiles a relation. -/
def compileRelation (settings : Settings) (relation : Relation) : Traced Field := do
  Traced.report (.relationCompiled relation)
  let arguments ← connectionArguments settings.relationFilterArgument
  pure (Field.ofRelation relation arguments)

end ModelSchema
