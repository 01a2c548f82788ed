import ModelSchema.Declaration.Property
import ModelSchema.Schema.DerivedType
import ModelSchema.Settings
import ModelSchema.Trace
import ModelSchema.Value.Nesting

/-!
# Fields of properties

A declared property becomes a field and the types that the field needs, children before their
parents. A property whose type is neither a scalar nor a known model is left out with a warning, a
deprecated one without. Structures are read when the compilation descends into them, so that the
limit on their depth also ends the compilation of a structure that contains itself.
-/

namespace ModelSchema

/-- What the compilation of all properties of a run depends on. -/
structure Surroundings where
  settings : Settings := {}
  /-- The names of the models of the run. -/
  knownModels : List String := []

/-- The type that a property belongs to. -/
structure Owner where
  name : String
  /-- The names of the fields that are hidden. -/
  hidden : List Value := []
  /-- How many anonymous structures the type is inside of, itself included. -/
  depth : Int := 0
  /-- The name of the model at the root, empty where the owner stands for itself. -/
  modelName : String := ""

/-- The name that failures give to the root of an owner. -/
def Owner.rootName (o : Owner) : String := if o.modelName = "" then o.name else o.modelName

/-- The owner of the properties of a structure that a property of `o` declares. -/
def Owner.inside (o : Owner) (field : Value) (hidden : List Value) : Owner :=
  { name := derivedName o.name field, hidden, depth := o.depth + 1, modelName := o.rootName }

/-- A compiled property: its field, unless the property is left out, and the types made for it. -/
structure Compiled where
  field : Option Field := none
  types : List TypeDescriptor := []

namespace Field

/-- What the field of a property is whatever its type. -/
def ofProperty (o : Owner) (p : Property) : Field :=
  { name := p.name
    isRequired := p.required
    isHidden := o.hidden.contains p.name
    description := p.description
    resolver := some (.property p.name) }

def withScalar (f : Field) (kind : ScalarKind) : Field :=
  { f with isScalar := true, scalarKind := some kind, typeName := some kind.name }

/-- The field with a type that is made for it. -/
def withDerived (f : Field) (typeName : String) : Field :=
  { f with typeName := some typeName, nestedTypeName := some typeName }

end Field

/-- The name of the generator of the current time. -/
def timestampGenerator : String := "now"

/-- Whether the value of a property is the time of its creation, whatever its declared type. -/
def Property.isTimestamp (p : Property) : Bool := p.defaultGenerator == some timestampGenerator

/-- The type of the items of a list, or the type itself; one list is unfolded at most. -/
def DeclaredType.itemType : DeclaredType → DeclaredType
  | .listOf item => item
  | t => t

def DeclaredType.isList : DeclaredType → Bool
  | .listOf _ | .untypedArray => true
  | _ => false

/-- The scalar kind that a declared type stands for by itself. -/
def DeclaredType.scalarKind? : DeclaredType → Option ScalarKind
  | .scalar name => ScalarKind.ofDeclared? name
  | .untypedArray => some .json
  | _ => none

/-- The scalar kind of a property: that of its default generator, if it has one, or else of its
type. -/
def scalarKind? (p : Property) (declared : DeclaredType) : Traced (Option ScalarKind) :=
  match p.defaultGenerator with
  | none => pure declared.scalarKind?
  | some generator =>
    if generator = "" then pure declared.scalarKind?
    else match ScalarKind.ofDeclared? generator with
      | some kind => pure (some kind)
      | none => do
        Traced.report (.generatorUnknown generator)
        pure declared.scalarKind?

/-- Leaves a property out because of a type that is not known. -/
def leaveOut (s : Surroundings) (o : Owner) (p : Property) (label : String) : Traced Compiled := do
  if s.settings.warnUnresolvedTypes.isTrue then
    Traced.report (.typeUnresolved o.name p.name label)
  pure {}

/-- Compiles a property that is no reference: to an enumeration, if its values are listed, or a
scalar. -/
def compileScalar (s : Surroundings) (o : Owner) (p : Property) (f : Field)
    (declared : DeclaredType) :
    Traced Compiled := do
  match ← scalarKind? p declared with
  | none => leaveOut s o p declared.label
  | some kind =>
    match p.enum with
    | some (v :: values) => do
      let enumeration ←
        (TypeDescriptor.buildEnumeration o.name p.name (v :: values) kind : Traced _)
      pure
        { field := f.withDerived (derivedName o.name p.name)
          types := [enumeration] }
    | _ => pure { field := f.withScalar kind }

/-- What a part of a union contributes to its members: the name of a scalar kind, or a known
model. -/
def unionMember? (knownModels : List String) (part : String) : Option String :=
  match ScalarKind.ofDeclared? part with
  | some kind => some kind.name
  | none => if knownModels.contains part then some part else none

/-- What the parts of a union contribute, in order, or the first part that contributes nothing. -/
def unionMembers (knownModels : List String) : List String → Except String (List String)
  | [] => .ok []
  | part :: rest => match unionMember? knownModels part with
    | none => .error part
    | some member => (unionMembers knownModels rest).map (member :: ·)

/-- Compiles a property that refers to a model or to several. -/
def compileReference (s : Surroundings) (o : Owner) (p : Property) (f : Field)
    (declared : DeclaredType) :
    Traced Compiled :=
  if declared.isUnion then
    match unionMembers s.knownModels declared.referenceNames with
    | .error part => leaveOut s o p part
    | .ok members =>
      pure
        { field := f.withDerived (derivedName o.name p.name)
          types := [.unionOf o.name p.name members.eraseDups] }
  else if s.knownModels.contains declared.label then
    pure { field := some { f with typeName := some declared.label } }
  else leaveOut s o p declared.label

/-- Why a structure cannot be opened where no more levels are left. -/
def tooDeep (s : Surroundings) (o : Owner) (p : Property) : Failure :=
  s.settings.limitFailure?.getD
    (.embeddedTooDeep (derivedName o.name p.name) o.rootName p.name (o.depth + 1)
      s.settings.maxEmbedDepth)

/-- Compiles properties in order: their fields, and the types of all of them. -/
def compileAll (compile : Property → Traced Compiled) :
    List Property → Traced (List (Value × Field) × List TypeDescriptor)
  | [] => pure ([], [])
  | p :: rest => do
    let first ← compile p
    let (fields, types) ← compileAll compile rest
    pure (match first.field with
      | some f => (f.name, f) :: fields
      | none => fields, first.types ++ types)

/-- Compiles a property while `levels` more levels of structures may open. -/
def compileWithin (s : Surroundings) (levels : Nat) (o : Owner) (p : Property) : Traced Compiled :=
  if p.deprecated then do
    Traced.report (.deprecatedSkipped o.name p.name)
    pure {}
  else
    let f := { Field.ofProperty o p with isList := p.type.isList }
    match p.type with
    | .untypedArray => pure { field := f.withScalar .json }
    | type => match type.itemType with
      | .embedded rawProperties name hidden =>
        if p.isTimestamp then compileScalar s o p f type.itemType
        else do
          let properties ← Property.ofMapping rawProperties
          if properties.isEmpty then pure { field := f.withScalar .json }
          else match levels with
            | 0 => Traced.fail (tooDeep s o p)
            | levels + 1 => do
              let inner := o.inside p.name hidden
              let (fields, types) ← compileAll (compileWithin s levels inner) (properties.map (·.2))
              pure
                { field := f.withDerived inner.name
                  types := types ++ [.anonymous o.name p.name name fields] }
      | .reference name =>
        if p.isTimestamp then compileScalar s o p f (.reference name)
        else compileReference s o p f (.reference name)
      | declared => compileScalar s o p f declared
termination_by structural levels

/-- How deep the structures of a declared type can nest. -/
def DeclaredType.nesting : DeclaredType → Nat
  | .listOf item => item.nesting
  | .embedded rawProperties _ _ => rawProperties.nesting + 1
  | _ => 0

/-- Compiles a property of an owner. -/
def compileProperty (s : Surroundings) (o : Owner) (p : Property) : Traced Compiled :=
  compileWithin s (s.settings.levelsLeft o.depth p.type.nesting) o p

end ModelSchema
