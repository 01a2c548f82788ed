import ModelSchema.Relation.Lookup
import ModelSchema.Schema.PropertyField
import ModelSchema.Schema.Registry
import ModelSchema.Schema.RootType

/-!
# Generating types

A generator compiles the models of one run into a registry, each model once. A relation is exposed
if its target is a shared model of the run; where several models bear one name, the first of them
counts. What a failing compilation has registered stays registered.
-/

namespace ModelSchema

/-- The type that the properties of a model belong to. -/
def Model.owner (m : Model) : Owner := { name := m.name, hidden := m.hidden, modelName := m.name }

/-- The object type of a model with the given fields. -/
def Model.objectType (m : Model) (fields : List (Value × Field)) : TypeDescriptor :=
  { name := .text m.name, category := .object, description := m.description, fields, input := true }

structure Generator where
  models : List Model
  settings : Settings
  lookup : RelationLookup
  registry : Registry := {}
  /-- The names of the models that have been compiled. -/
  compiled : List String := []

namespace Generator

/-- A generator for the models of a run. A lookup that the caller gives takes precedence over the
one that the settings name. -/
def make (catalogue : LookupCatalogue) (models : List Model) (source : SettingsSource)
    (lookup : Option RelationLookup) : Except Failure Generator := do
  let settings ← source.load
  let lookup ← match lookup with
    | some lookup => .ok lookup
    | none => catalogue.select settings.relationLookup
  pure { models, settings, lookup }

/-- A procedure on the registry of a generator. -/
def onRegistry {α : Type} (p : Procedure Registry α) : Procedure Generator α :=
  Procedure.onPart Generator.registry (fun r g => { g with registry := r }) p

/-- The model at an index; negative indices count from the end. -/
def modelAt (g : Generator) (index : Int) : Except Failure Model :=
  let place := if index < 0 then index + g.models.length else index
  if place < 0 then .error .indexOutOfRange
  else match g.models[place.toNat]? with
    | some m => .ok m
    | none => .error .indexOutOfRange

/-- The first model with a name. -/
def model? (g : Generator) (name : String) : Option Model := g.models.find? fun m => m.name == name

/-- What the compilation of the properties of the run depends on. -/
def surroundings (g : Generator) : Surroundings :=
  { settings := g.settings, knownModels := g.models.map Model.name }

/-- Whether a relation is exposed. A relation to a model without a name is not. -/
def exposes (g : Generator) (relation : Relation) : Bool :=
  match relation.target with
  | none => false
  | some target => target != "" && (g.model? target).any Model.shared

/-- The relations of a model that are exposed. -/
def exposedRelations (g : Generator) (m : Model) : List Relation :=
  (m.relations.map (·.2)).filter g.exposes

/-- Compiles properties in order after the given fields, registering the types of each. -/
def addProperties (o : Owner) (fields : List (Value × Field)) :
    List Property → Procedure Generator (List (Value × Field))
  | [] => pure fields
  | p :: rest => do
    let g ← Procedure.get
    let compiled ← compileProperty g.surroundings o p
    onRegistry (Registry.merge compiled.types)
    addProperties o
      (match compiled.field with
        | some f => Table.put f.name f fields
        | none => fields)
      rest

/-- Compiles relations in order after the given fields; a relation takes the place of a field of its
name. -/
def addRelations (settings : Settings) (fields : List (Value × Field)) :
    List Relation → Traced (List (Value × Field))
  | [] => pure fields
  | relation :: rest => do
    let f ← compileRelation settings relation
    addRelations settings (Table.put (.text relation.name) f fields) rest

/-- Compiles the fields of a model and registers the types that they need. -/
def modelFields (m : Model) : Procedure Generator (List (Value × Field)) := do
  let fields ← addProperties m.owner [] (m.properties.map (·.2))
  let g ← Procedure.get
  addRelations g.settings fields (g.exposedRelations m)

/-- Compiles a model and registers its type, unless a model of its name has been compiled. -/
def generateObject (m : Model) : Procedure Generator TypeDescriptor := do
  let g ← Procedure.get
  if g.compiled.contains m.name then do
    Traced.report (.modelRepeated m.name)
    let stored ← (g.registry.fetch (.text m.name) : Traced _)
    pure stored
  else do
    let fields ← modelFields m
    Procedure.modify fun g => { g with compiled := g.compiled ++ [m.name] }
    Traced.report (.modelCompiled m.name fields.length)
    let registration ← onRegistry (Registry.register (m.objectType fields))
    pure registration.stored

/-- Registers the root type. -/
def generateRoot : Procedure Generator TypeDescriptor := do
  let g ← Procedure.get
  let registration ← onRegistry (Registry.register (rootType g.models g.settings))
  pure registration.stored

/-- Compiles models in order. -/
def generateObjects : List Model → Procedure Generator Unit
  | [] => pure ()
  | m :: rest => do
    let _ ← generateObject m
    generateObjects rest

/-- Compiles the root type and all models of the run, and freezes the registry. -/
def generateAll : Procedure Generator Unit := do
  let _ ← generateRoot
  let g ← Procedure.get
  generateObjects g.models
  let _ ← onRegistry Registry.freeze
  Traced.report (.registryBuilt g.models.length)

end Generator

/-- The frozen registry of the types of the given models. -/
def buildRegistry (catalogue : LookupCatalogue) (sources : List ModelSource)
    (settings : SettingsSource)
    (lookup : Option RelationLookup) : Traced Registry := do
  let models ← loadModels sources
  let g ← (Generator.make catalogue models settings lookup : Traced _)
  let (final, x) := Generator.generateAll.run g
  let _ ← x
  pure final.registry

end ModelSchema
