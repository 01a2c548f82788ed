import ModelSchema.Paging.Connection
import ModelSchema.Relation.Lookup
import ModelSchema.Schema.Descriptor

/-!
# Resolving fields

How the values of fields are found at query time. A property is read off the source instance; a
relation asks its lookup for the related instances and gives the page of them that the arguments
choose, as the lookup leaves them.
-/

namespace ModelSchema

/-- What a source instance has under the name of a property, null if it has nothing. -/
def resolveProperty (name source : Value) : Except Failure Value :=
  match source with
  | .null => .ok .null
  | source => match source.entries? with
    | some entries => .ok ((Table.find? name entries).getD .null)
    | none => match name with
      | .text s => .ok ((source.attribute? s).getD .null)
      | _ => .error .typeMismatch

/-- The call that a relation makes to its lookup; the arguments are copied for it. -/
def relationCall (relation : Relation) (source arguments context : Value) :
    Except Failure LookupCall :=
  arguments.optionalRows.map fun rows =>
    { relation, source, arguments := Table.ofRows rows, context }

/-- The related instances as a list. -/
def relatedList (related : Value) : Except Failure (List Value) :=
  if related.isTrue then related.elements else .ok []

/-- The page that a lookup gives for a call. -/
def LookupCall.page (call : LookupCall) (lookup : RelationLookup) :
    Except Failure Paging.Connection := do
  let reply := lookup call
  let related ← (← reply.answer).outcome
  Paging.Connection.ofList (← relatedList related) reply.arguments

/-- The page of related instances of a relation. -/
def resolveRelation (lookup : RelationLookup) (relation : Relation)
    (source arguments context : Value) :
    Except Failure Paging.Connection :=
  (relationCall relation source arguments context).bind fun call => call.page lookup

/-- What a field resolves to. -/
inductive Resolved where
  | value (v : Value)
  | connection (c : Paging.Connection)

/-- Resolves a field; a field without a resolver cannot be. -/
def Field.resolve (f : Field) (lookup : RelationLookup) (source arguments context : Value) :
    Except Failure Resolved :=
  match f.resolver with
  | none => .error .typeMismatch
  | some (.property name) => (resolveProperty name source).map .value
  | some (.relation relation) =>
    (resolveRelation lookup relation source arguments context).map .connection

end ModelSchema
