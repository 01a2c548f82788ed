import ModelSchema.Relation.Basic
import ModelSchema.Scalar.Kind
import ModelSchema.Value.Signal

/-!
# Descriptors

What a schema is made of: types, their fields and the arguments of fields. A descriptor says
everything that the execution layer needs to build the thing. Two descriptors are the same if all
that is exported of them agrees, and of a type also the parts that its category does not export; how
a field is resolved and whether a descriptor has been consumed do not count. Comparing two
descriptors may come upon a signal, like comparing two values.
-/

namespace ModelSchema

/-- An argument that a field accepts. -/
structure Argument where
  typeName : String
  description : Value := .null

/-- How the value of a field is found in an instance of its owner. -/
inductive Resolver where
  /-- The value that the instance has under the name. -/
  | property (name : Value)
  /-- A page of the instances that the relation leads to. -/
  | relation (relation : Relation)

/-- A field of an object type. -/
structure Field where
  name : Value
  typeName : Option String := none
  isList : Bool := false
  isScalar : Bool := false
  scalarKind : Option ScalarKind := none
  isRelation : Bool := false
  isConnection : Bool := false
  relationKind : Option String := none
  embed : Bool := false
  isRequired : Bool := false
  isHidden : Bool := false
  nestedTypeName : Option String := none
  description : Value := .null
  arguments : List (Value × Argument) := []
  resolver : Option Resolver := none
  generated : Bool := false

inductive TypeCategory where
  | object | enum | union
  deriving DecidableEq

namespace TypeCategory

def name : TypeCategory → String
  | .object => "OBJECT"
  | .enum => "ENUM"
  | .union => "UNION"

def all : List TypeCategory := [.object, .enum, .union]

/-- The category with a given name. -/
def ofName? (name : String) : Option TypeCategory := all.find? fun category => category.name == name

end TypeCategory

/-- A named type: an object with fields, an enumeration with values or a union with members. -/
structure TypeDescriptor where
  name : Value
  category : TypeCategory
  description : Value := .null
  fields : List (Value × Field) := []
  values : List Value := []
  scalarKind : Option ScalarKind := none
  members : List String := []
  input : Bool := false
  generated : Bool := false

/-- Whether two tables have the same rows, in whatever order. -/
def sameRows {α : Type} (same : α → α → Bool) (rows others : List (Value × α)) : Bool :=
  (rows.all fun row => others.any fun other => row.1 == other.1 && same row.2 other.2) &&
    others.all fun other => rows.any fun row => row.1 == other.1 && same row.2 other.2

/-- Whether comparing two tables row by row comes upon a signal before a row that is not the
same. -/
def rowsSignal {α : Type} (signals same : α → α → Bool) (rows others : List (Value × α)) : Bool :=
  match rows with
  | [] => false
  | (key, a) :: rows => match Table.find? key others with
    | none => false
    | some b => signals a b || (same a b && rowsSignal signals same rows others)

/-- Whether comparing two tables comes upon a signal; tables of different sizes are not compared. -/
def tablesSignal {α : Type} (signals same : α → α → Bool) (rows others : List (Value × α)) : Bool :=
  rows.length == others.length && rowsSignal signals same rows others

namespace Argument

def same (a b : Argument) : Bool := a.typeName == b.typeName && a.description == b.description

/-- Whether comparing two arguments comes upon a signal. -/
def signals (a b : Argument) : Bool :=
  a.typeName == b.typeName && a.description.signals b.description

end Argument

namespace Field

/-- Whether two fields agree in all but their descriptions and arguments. -/
def agrees (a b : Field) : Bool :=
  a.name == b.name && a.typeName == b.typeName && a.isList == b.isList &&
    a.isScalar == b.isScalar && a.scalarKind == b.scalarKind &&
    a.isRelation == b.isRelation && a.isConnection == b.isConnection &&
    a.relationKind == b.relationKind && a.embed == b.embed && a.isRequired == b.isRequired &&
    a.isHidden == b.isHidden && a.nestedTypeName == b.nestedTypeName

def same (a b : Field) : Bool :=
  a.agrees b && a.description == b.description && sameRows Argument.same a.arguments b.arguments

/-- Whether comparing two fields comes upon a signal. -/
def signals (a b : Field) : Bool :=
  a.agrees b &&
    (a.description.signals b.description ||
      (a.description == b.description &&
        tablesSignal Argument.signals Argument.same a.arguments b.arguments))

end Field

namespace TypeDescriptor

def same (a b : TypeDescriptor) : Bool :=
  a.name == b.name && a.category == b.category && a.description == b.description &&
    sameRows Field.same a.fields b.fields && Value.sameItems a.values b.values &&
    a.scalarKind == b.scalarKind &&
    a.members == b.members && a.input == b.input

/-- Whether comparing two types comes upon a signal. -/
def signals (a b : TypeDescriptor) : Bool :=
  a.name == b.name && a.category == b.category &&
    (a.description.signals b.description ||
      (a.description == b.description &&
        (tablesSignal Field.signals Field.same a.fields b.fields ||
          (sameRows Field.same a.fields b.fields && Value.itemsSignal a.values b.values))))

end TypeDescriptor

end ModelSchema
