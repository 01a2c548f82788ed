import ModelSchema.Text.Blank
import ModelSchema.Text.Lowercase

/-!
# Scalar kinds

The closed set of scalar kinds, and the names by which declarations call them. A name is compared
without the blanks around it and without regard to case. All names are written in letters and digits
of ASCII without a `k`, and no other character has one of these as its lower case, so only the case
of ASCII letters matters.
-/

namespace ModelSchema

inductive ScalarKind where
  | json | float | string | boolean | id | date
  deriving DecidableEq

namespace ScalarKind

def all : List ScalarKind := [.json, .float, .string, .boolean, .id, .date]

def name : ScalarKind → String
  | .json => "JSON"
  | .float => "Float"
  | .string => "String"
  | .boolean => "Boolean"
  | .id => "ID"
  | .date => "Date"

/-- The kind with a given name. -/
def ofName? (name : String) : Option ScalarKind := all.find? fun kind => kind.name == name

theorem ofName?_name (kind : ScalarKind) : ofName? kind.name = some kind := by cases kind <;> decide

theorem name_injective {a b : ScalarKind} (h : a.name = b.name) : a = b := by
  have := congrArg ofName? h
  simpa [ofName?_name] using this

/-- The kinds by the names of declared types and of default generators, in small letters. -/
def declaredNames : List (String × ScalarKind) :=
  [("any", .json), ("number", .float), ("string", .string), ("boolean", .boolean),
   ("objectid", .id), ("date", .date), ("object", .json), ("now", .date), ("guid", .id),
   ("uuid", .id), ("uuidv4", .id)]

/-- The kind that a declared name stands for. -/
def ofDeclared? (name : String) : Option ScalarKind :=
  declaredNames.lookup (Text.foldAsciiCase (Text.trim name))

end ScalarKind

end ModelSchema
