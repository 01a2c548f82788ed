import ModelSchema.Value.Conversion

/-!
# Literals

The literals of a query as its reader hands them over, and the values that they stand for. A
variable stands for what the query's variables hold under its name, null if they hold nothing. Texts
inside a literal stand for themselves.
-/

namespace ModelSchema

inductive Literal where
  | object (fields : List (String × Literal))
  | list (items : List Literal)
  | text (s : String)
  | int (digits : String)
  | float (digits : String)
  | enum (name : String)
  | bool (b : Bool)
  | null
  | variable (name : String)
  /-- A part of a query of another kind, which stands for no value. -/
  | other (kind : String)

instance : Inhabited Literal := ⟨.null⟩

namespace Literal

/-- The kind of a literal. -/
def kind : Literal → String
  | .object _ => "ObjectValue"
  | .list _ => "ListValue"
  | .text _ => "StringValue"
  | .int _ => "IntValue"
  | .float _ => "FloatValue"
  | .enum _ => "EnumValue"
  | .bool _ => "BooleanValue"
  | .null => "NullValue"
  | .variable _ => "Variable"
  | .other kind => kind

/-- What the variables of a query hold under a name. -/
def variableValue (bindings : Value) (name : String) : Except Failure Value :=
  if bindings.isTrue then
    match bindings.entries? with
    | some entries => .ok ((Table.find? (.text name) entries).getD .null)
    | none => match bindings.standIn? "get" with
      | some t => t.ofText name
      | none => .error (bindings.withoutOperation "get")
  else .ok .null

mutual

/-- The value that a literal stands for. -/
def value (bindings : Value) (node : Literal) : Except Failure Value :=
  match node with
  | .object fields => (fieldValues bindings fields).map fun rows => .mapping (Table.ofRows rows)
  | .list items => (itemValues bindings items).map .list
  | .text s | .enum s => .ok (.text s)
  | .int digits => TypeObject.integer.ofText digits
  | .float digits => TypeObject.real.ofText digits
  | .bool b => .ok (.bool b)
  | .null => .ok .null
  | .variable name => variableValue bindings name
  | .other kind => .error (.unsupportedLiteral kind "JSON")
termination_by structural node

/-- The values that the fields of an object stand for. -/
def fieldValues (bindings : Value) (fields : List (String × Literal)) :
    Except Failure (List (Value × Value)) :=
  match fields with
  | [] => .ok []
  | (name, node) :: rest =>
    (value bindings node).bind fun v => (fieldValues bindings rest).map ((.text name, v) :: ·)
termination_by structural fields

/-- The values that the items of a list stand for. -/
def itemValues (bindings : Value) (items : List Literal) : Except Failure (List Value) :=
  match items with
  | [] => .ok []
  | node :: rest => (value bindings node).bind fun v => (itemValues bindings rest).map (v :: ·)
termination_by structural items

end

end Literal

end ModelSchema
