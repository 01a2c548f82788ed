import ModelSchema.Value.Basic

/-!
# Nesting

How deep the lists, mappings and objects inside a value nest. A knot has no bottom; it counts for
its own entries, and for being opened once as a whole and once as the mapping that wraps it.
-/

namespace ModelSchema.Value

mutual

/-- How deep the collections inside a value nest. -/
def nesting (v : Value) : Nat :=
  match v with
  | .list items | .tuple items | .set items => itemNesting items + 1
  | .mapping entries => entryNesting entries + 1
  | .knot before _ after _ => max (entryNesting before) (entryNesting after) + 2
  | .object fields | .record _ fields => fieldNesting fields + 1
  | _ => 0
termination_by structural v

def itemNesting (items : List Value) : Nat :=
  match items with
  | [] => 0
  | v :: rest => max v.nesting (itemNesting rest)
termination_by structural items

def entryNesting (entries : List (Value × Value)) : Nat :=
  match entries with
  | [] => 0
  | (_, v) :: rest => max v.nesting (entryNesting rest)
termination_by structural entries

def fieldNesting (fields : List (String × Value)) : Nat :=
  match fields with
  | [] => 0
  | (_, v) :: rest => max v.nesting (fieldNesting rest)
termination_by structural fields

end

end ModelSchema.Value
