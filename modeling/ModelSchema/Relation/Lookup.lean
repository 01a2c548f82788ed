import ModelSchema.Value.Access

/-!
# Relation lookups

The related instances of a relation are found by a lookup that the user supplies. It gets the
relation, the source instance, a copy of the query arguments, which it may change, and a context; it
answers at once, or with something to wait for.
-/

namespace ModelSchema

/-- What a lookup is called with. -/
structure LookupCall where
  relation : Relation
  source : Value
  arguments : List (Value × Value)
  context : Value

/-- How a lookup answers. -/
inductive LookupAnswer where
  | ready (related : Value)
  /-- Something to wait for in the same thread. -/
  | awaitable (outcome : Except Failure Value)
  /-- Something that another thread brings about. -/
  | future (outcome : Except Failure Value)

/-- What comes of waiting for an answer. -/
def LookupAnswer.outcome : LookupAnswer → Except Failure Value
  | .ready related => .ok related
  | .awaitable outcome | .future outcome => outcome

/-- The answer of a lookup, unless it fails at once, and the arguments as it leaves them. -/
structure LookupReply where
  answer : Except Failure LookupAnswer
  arguments : List (Value × Value)

abbrev RelationLookup : Type := LookupCall → LookupReply

namespace RelationLookup

/-- The lookup that always gives the same answer. -/
def giving (answer : Except Failure LookupAnswer) : RelationLookup :=
  fun call => ⟨answer, call.arguments⟩

/-- The lookup that changes the arguments before it answers. -/
def changing (changes : Value) (related : Value) : RelationLookup := fun call =>
  match changes.rows with
  | .ok rows => ⟨.ok (.ready related), Table.merge call.arguments rows⟩
  | .error e => ⟨.error e, call.arguments⟩

/-- The lookup that stands in where none has been supplied. -/
def missing : RelationLookup :=
  fun call => ⟨.error (.noRelationLookup call.relation), call.arguments⟩

/-- The list of what a source instance itself holds under the name of a relation; empty if it holds
nothing. -/
def heldBySource (relation : Relation) (source : Value) : Except Failure Value :=
  if source.isTrue then
    match source.entries? with
    | some entries => match Table.find? (.text relation.name) entries with
      | some related => related.elements.map .list
      | none => .ok (.list [])
    | none => .error (source.withoutOperation "get")
  else .ok (.list [])

/-- The lookup that finds the related instances in the source instance. -/
def inSource : RelationLookup := fun call =>
  ⟨(heldBySource call.relation call.source).map .ready, call.arguments⟩

end RelationLookup

/-- The lookups that can be named by a path, by module and member. -/
abbrev LookupCatalogue : Type := List (String × List (String × RelationLookup))

namespace LookupCatalogue

/-- A path split at its last dot. -/
def splitPath? (path : List Char) : Option (List Char × List Char) :=
  let (member, rest) := path.reverse.span (· != '.')
  match rest with
  | [] => none
  | _ :: front => some (front.reverse, member.reverse)

/-- The names that every module has besides its members. What they stand for does not answer
calls. -/
def commonNames : List String :=
  ["__annotations__", "__class__", "__delattr__", "__dict__", "__dir__", "__doc__", "__eq__",
   "__format__", "__ge__", "__getattribute__", "__getstate__", "__gt__", "__hash__", "__init__",
   "__init_subclass__", "__le__", "__loader__", "__lt__", "__name__", "__ne__", "__new__",
   "__package__", "__reduce__", "__reduce_ex__", "__repr__", "__setattr__", "__sizeof__",
   "__spec__", "__str__", "__subclasshook__"]

/-- The lookup of a module with a given name. -/
def findMember (catalogue : LookupCatalogue) (moduleName member : String) :
    Except Failure RelationLookup :=
  if moduleName = "" then .error .emptyModuleName
  else if moduleName.startsWith "." then .error .typeMismatch
  else match catalogue.lookup moduleName with
    | none => .error .unknownModule
    | some members => match members.lookup member with
      | some lookup => .ok lookup
      | none =>
        if commonNames.contains member then .ok (.giving (.error .typeMismatch))
        else .error (.unknownLookup moduleName member)

/-- The lookup with a given path. -/
def find (catalogue : LookupCatalogue) (path : Value) : Except Failure RelationLookup :=
  match path with
  | .text s => match splitPath? s.toList with
    | none => .error (.notModulePath s)
    | some (moduleName, member) =>
      catalogue.findMember (String.ofList moduleName) (String.ofList member)
  | .bytes _ | .type .text | .type .bytes => .error .typeMismatch
  | path => match path.standIn? "rsplit" with
    -- the dot is made an integer here, but it is no number
    | some .integer => .error (.notModulePath path.plain)
    | _ => .error (if (path.attribute? "rsplit").isSome then .typeMismatch else .missingMethod)

/-- The lookup that settings name, or the stand-in. -/
def select (catalogue : LookupCatalogue) (path : Value) : Except Failure RelationLookup :=
  if path.isTrue then catalogue.find path else .ok .missing

end LookupCatalogue

end ModelSchema
