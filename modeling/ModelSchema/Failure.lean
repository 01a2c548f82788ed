import ModelSchema.Calendar.Error
import ModelSchema.Json.Error
import ModelSchema.Schema.Descriptor
import ModelSchema.Value.Display

/-!
# Failures

Everything that can go wrong, by its cause, and the wording of each. The general causes at the head
of the list have no wording of their own.
-/

namespace ModelSchema

inductive Failure where
  /-- A value is of a type that the operation does not apply to. -/
  | typeMismatch
  /-- A value lacks the method that the operation needs. -/
  | missingMethod
  | missingKey
  | unknownModule
  | indexOutOfRange
  /-- A row of a table that has not two parts, but `length` of them. -/
  | unevenRow (index length : Nat)
  | circularReference
  | namelessModel (raw : Value)
  | unknownRelationKind (declared : Value)
  /-- A value is none of those that an enumeration lists. -/
  | notListed (enumeration : String) (declared : Value)
  /-- Anonymous structures nest deeper than the limit. -/
  | embeddedTooDeep (typeName modelName : String) (field : Value) (depth : Int) (limit : Value)
  /-- A number that is not a number cannot be compared with others. -/
  | undefinedComparison
  /-- A different type holds the name. -/
  | nameTaken (name : Value) (category : TypeCategory)
  /-- A type cannot be added because the registry is frozen. -/
  | registrationFrozen (name : Value)
  | alreadyFrozen
  | noRelationLookup (relation : Relation)
  /-- A lookup gave up for the given reason. -/
  | lookupFailed (reason : Value)
  | notModulePath (path : String)
  | emptyModuleName
  | unknownLookup (moduleName member : String)
  /-- A page size is negative. -/
  | negativeCount (argument : String)
  /-- An integer and a text are not made of one another. -/
  | notInteger (e : Number.IntegerError)
  | notNumber (text : String)
  | notDecimal (e : Number.DecimalError)
  | notMoment (e : Calendar.CalendarError)
  | jsonUnreadable (text : List Char) (e : Json.ReadError)
  | jsonUnwritable (e : Json.WriteError)
  | dateUnreadable (e : Calendar.CalendarError)
  | notDate (typeName : String)
  | notDateText (typeName : String)
  /-- A literal of a kind that stands for no value of the scalar. -/
  | unsupportedLiteral (kind scalar : String)

namespace Failure

/-- The wording of a failure, if it has one. -/
def message? : Failure → Option String
  | .typeMismatch | .missingMethod | .missingKey | .unknownModule => none
  | .indexOutOfRange => some "list index out of range"
  | .unevenRow index length =>
    some ("dictionary update sequence element #" ++ Number.naturalText index ++ " has length " ++
      Number.naturalText length ++ "; 2 is required")
  | .circularReference => some Json.WriteError.circular.message
  | .namelessModel raw => some ("Model description without a name: " ++ raw.quoted)
  | .unknownRelationKind declared =>
    some ("Invalid relation kind '" ++ declared.plain ++ "'. Valid kinds: " ++
      RelationKind.allNamesText)
  | .notListed enumeration declared => some (declared.quoted ++ " is not a valid " ++ enumeration)
  | .embeddedTooDeep typeName _ _ _ limit =>
    some ("Anonymous type '" ++ typeName ++ "' exceeds the maximum embed depth of " ++ limit.plain)
  | .undefinedComparison => some Json.WriteError.undefinedComparison.message
  | .nameTaken name category =>
    some ("Type name '" ++ name.plain ++ "' already registered as " ++ category.name)
  | .registrationFrozen name =>
    some ("Cannot register type '" ++ name.plain ++ "': registry is frozen")
  | .alreadyFrozen => some "Registry is already frozen"
  | .noRelationLookup relation =>
    some ("No relation lookup configured to resolve '" ++ relation.name ++ "'")
  | .lookupFailed reason => some reason.plain
  | .notModulePath path => some (path ++ " doesn't look like a module path")
  | .emptyModuleName => some "Empty module name"
  | .unknownLookup moduleName member =>
    some ("Module \"" ++ moduleName ++ "\" does not define a \"" ++ member ++ "\" attribute/class")
  | .negativeCount argument =>
    some ("Argument '" ++ argument ++ "' must be a non-negative integer.")
  | .notInteger e => some e.message
  | .notNumber text => some ("could not convert string to float: " ++ Text.quote text)
  | .notDecimal e => some e.message
  | .notMoment e => some e.message
  | .jsonUnreadable text e => some ("Invalid JSON format: " ++ e.message text)
  | .jsonUnwritable e => some ("Cannot serialize value as JSON: " ++ e.message)
  | .dateUnreadable e => some ("Invalid Date format: " ++ e.message)
  | .notDate typeName => some ("Value must be a date object, got " ++ typeName)
  | .notDateText typeName => some ("Date must be a string, got " ++ typeName)
  | .unsupportedLiteral kind scalar => some ("Cannot parse " ++ kind ++ "Node as " ++ scalar)

end Failure

end ModelSchema
