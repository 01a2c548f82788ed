import ModelSchema.Failure

/-!
# Derived types

Types that no model declares by name: enumerations, unions and anonymous structures are named after
the field that needs them and the type that owns the field.
-/

namespace ModelSchema

/-- The name of the type that a field of an owner needs. -/
def derivedName (owner : String) (field : Value) : String := owner ++ "_" ++ field.plain

namespace TypeDescriptor

/-- The enumeration of the values that a field can have, in the declared order and without
repetitions. -/
def enumeration (owner : String) (field : Value) (values : List Value) (kind : Option ScalarKind) :
    TypeDescriptor :=
  { name := .text (derivedName owner field)
    category := .enum
    values := Value.distinct values
    scalarKind := kind }

/-- The enumeration of values, unless a signal comes up while looking for repetitions. -/
def buildEnumeration (owner : String) (field : Value) (values : List Value)
    (kind : Option ScalarKind) :
    Except Failure TypeDescriptor :=
  if Value.distinctSignals [] values then .error .undefinedComparison
  else .ok (enumeration owner field values kind)

/-- The union of the types that a field can have. -/
def unionOf (owner : String) (field : Value) (members : List String) : TypeDescriptor :=
  { name := .text (derivedName owner field), category := .union, members }

/-- The object type of a structure that is declared where it is used. -/
def anonymous (owner : String) (field description : Value) (fields : List (Value × Field)) :
    TypeDescriptor :=
  { name := .text (derivedName owner field), category := .object, description, fields
    input := true }

end TypeDescriptor

end ModelSchema
