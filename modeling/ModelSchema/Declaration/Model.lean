import ModelSchema.Declaration.Property
import ModelSchema.Trace

/-!
# Models

A model is described by its name, its properties and its relations to other models. Descriptions are
mappings or attribute objects; some of their parts may stand in a nested `definition`. A relation of
an unknown kind is left out with a warning.
-/

namespace ModelSchema

structure Model where
  name : String
  pluralName : String
  /-- Whether the model is listed by the root type and exposed through relations. -/
  shared : Bool := false
  properties : List (Value × Property) := []
  /-- The names of the fields that are hidden. -/
  hidden : List Value := []
  relations : List (Value × Relation) := []
  description : Value := .null

namespace Model

/-- The first of the named members of a description, or else of its nested definition. -/
def defined? (raw : Value) (names : List String) : Option Value :=
  (raw.firstMember? names).or
    (match raw.read ["definition"] with
      | .null => none
      | definition => definition.firstMember? names)

def readName (raw : Value) : Except Failure String :=
  match modelName? raw with
  | some name => if name = "" then .error (.namelessModel raw) else .ok name
  | none => .error (.namelessModel raw)

/-- The declared plural, or the name with an `s`. -/
def readPlural (name : String) (raw : Value) : String :=
  let plural := raw.read ["plural_model_name", "pluralModelName", "plural"]
  if plural.isTrue then Text.trim plural.plain else name ++ "s"

/-- The hidden names stand in the description, or else in its settings. -/
def readHidden (raw : Value) : Except Failure (List Value) :=
  match raw.read ["hidden"] with
  | .null =>
    let settings := (defined? raw ["settings"]).getD .null
    (if settings.isTrue then settings.read ["hidden"] else .null).toSet
  | hidden => hidden.toSet

/-- Reads a relation that a model declares under a key, unless its kind is unknown. -/
def readRelation (model : String) (key raw : Value) : Except Event Relation :=
  let declaredKind := (raw.firstMember? ["type"]).getD (.text "")
  match RelationKind.ofDeclared? declaredKind.plain with
  | none => .error (.relationSkipped model key declaredKind)
  | some kind =>
    let name := (raw.firstMember? ["name"]).getD key
    .ok
      { name := (if name.isTrue then name else key).plain
        source := model
        target := modelName? (raw.read ["model_to", "modelTo", "model"])
        kind
        embed := (raw.read ["embed"]).isTrue }

/-- Reads the relations of a model from a list of raw relations, in order. -/
def readRelations (model : String) : List (Value × Value) → Traced (List (Value × Relation))
  | [] => pure []
  | (key, raw) :: rest =>
    match readRelation model key raw with
    | .error e => do
      Traced.report e
      readRelations model rest
    | .ok relation => do
      let others ← readRelations model rest
      pure ((key, relation) :: others)

/-- The raw relations of a model. -/
def rawRelations (raw : Value) : Value :=
  match raw.read ["relations"] with
  | .null => (defined? raw ["relations"]).getD .null
  | relations => relations

/-- Reads a model from its raw description. -/
def ofValue (raw : Value) : Traced Model := do
  let name ← readName raw
  let properties ← Property.ofMapping ((defined? raw ["properties"]).getD .null)
  let hidden ← readHidden raw
  let entries ← (rawRelations raw).items
  let relations ← readRelations name entries
  pure
    { name, properties, hidden, relations
      pluralName := readPlural name raw
      shared := (raw.read ["shared"]).isTrue
      description := (defined? raw ["description"]).getD .null }

/-- A relation as a value. -/
def relationValue (relation : Relation) : Value :=
  .record "RelationDeclaration"
    [("name", .text relation.name), ("source", .text relation.source),
     ("target", match relation.target with | none => .null | some target => .text target),
     ("kind", .enumerator "RelationKind"
       ("<RelationKind." ++ relation.kind.constantName ++ ": " ++
         Text.quote relation.kind.name ++ ">")),
     ("embed", .bool relation.embed)]

/-- A model as a value. -/
def toValue (m : Model) : Value :=
  .record modelShape
    [("model_name", .text m.name), ("plural_model_name", .text m.pluralName),
     ("shared", .bool m.shared),
     ("properties", .mapping (m.properties.map fun row => (row.1, row.2.toValue))),
     ("hidden", .set m.hidden),
     ("relations", .mapping (m.relations.map fun row => (row.1, relationValue row.2))),
     ("description", m.description)]

end Model

/-- What a model can be loaded from: a raw description, or a model that has been read before. -/
inductive ModelSource where
  | described (raw : Value)
  | read (model : Model)

/-- Loads a model. -/
def ModelSource.load : ModelSource → Traced Model
  | .described raw => Model.ofValue raw
  | .read model => pure model

/-- Loads models in order. -/
def loadModels : List ModelSource → Traced (List Model)
  | [] => pure []
  | source :: rest => do
    let model ← source.load
    let models ← loadModels rest
    pure (model :: models)

end ModelSchema
