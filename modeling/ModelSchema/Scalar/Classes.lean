import ModelSchema.Scalar.Kind
import ModelSchema.Table

/-!
# Scalar classes

The execution layer builds each scalar with a class. Custom classes are registered by the name of
the scalar; they take precedence over the built-in class of a kind.
-/

namespace ModelSchema

/-- The custom scalar classes by scalar name, in the order of their first registration. -/
structure ScalarClasses where
  byName : List (String × String)

namespace ScalarClasses

/-- The opaque scalar and the date scalar come with classes of their own. -/
def standard : ScalarClasses := ⟨[("JSON", "JSON"), ("Date", "Date")]⟩

def register (classes : ScalarClasses) (name className : String) : ScalarClasses :=
  ⟨Table.put name className classes.byName⟩

def find? (classes : ScalarClasses) (name : String) : Option String :=
  Table.find? name classes.byName

def names (classes : ScalarClasses) : List String := classes.byName.map (·.1)

/-- The class that a kind is built with. The built-in classes bear the names of their kinds. -/
def ofKind (classes : ScalarClasses) (kind : ScalarKind) : String :=
  (classes.find? kind.name).getD kind.name

end ScalarClasses

end ModelSchema
