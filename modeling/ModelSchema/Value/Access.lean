import ModelSchema.Failure

/-!
# Looking into values

The entries of mappings, the attributes of everything else, and the items that a value consists of.
Declarations come as mappings or as attribute objects and are read by the same names either way.
-/

namespace ModelSchema.Value

/-- The entries of a mapping; a knot is unfolded by one level. -/
def entries? : Value → Option (List (Value × Value))
  | .mapping entries => some entries
  | .knot before key after .direct =>
    some (before ++ (key, .knot before key after .direct) :: after)
  | .knot before key after .wrapped =>
    some (before ++ (key, .knot before key after .wrapper) :: after)
  | .knot before key after .wrapper => some [(.text "type", .knot before key after .wrapped)]
  | _ => none

def isMapping (v : Value) : Bool := v.entries?.isSome

/-- The parts of a whole number. -/
def integerAttribute? (n : Int) (name : String) : Option Value :=
  match name with
  | "real" | "numerator" => some (.int n)
  | "imag" => some (.int 0)
  | "denominator" => some (.int 1)
  | _ => none

/-- The ends of the calendar, as dates or as dates with times. -/
def calendarAttribute? (withTime : Bool) (name : String) : Option Value :=
  match name with
  | "min" => some (if withTime then .dateTime .earliest else .date .earliest)
  | "max" => some (if withTime then .dateTime .latest else .date .latest)
  | _ => none

def dateAttribute? (d : Calendar.Date) (name : String) : Option Value :=
  match name with
  | "year" => some (.int d.year)
  | "month" => some (.int d.month)
  | "day" => some (.int d.day)
  | _ => none

def timeAttribute? (t : Calendar.Time) (name : String) : Option Value :=
  match name with
  | "hour" => some (.int t.hour)
  | "minute" => some (.int t.minute)
  | "second" => some (.int t.second)
  | "microsecond" => some (.int t.microsecond)
  | "fold" => some (.int 0)
  | _ => none

/-- What a type tells about itself: its names, the types that it is a special case of, and the ends
of the calendar. -/
def typeAttribute? (t : TypeObject) (name : String) : Option Value :=
  match name with
  | "__name__" | "__qualname__" => some (.text t.name)
  | "__module__" => some (.text t.collection)
  | "__base__" => some (t.ancestors.head?.elim .null .type)
  | "__bases__" => some (.tuple (t.ancestors.head?.toList.map .type))
  | "__mro__" => some (.tuple ((t :: t.ancestors).map .type))
  | name => match t with
    | .date => calendarAttribute? false name
    | .dateTime => calendarAttribute? true name
    | _ => none

/-- The attribute with a given name that a value has beside its type. -/
def ownAttribute? (v : Value) (name : String) : Option Value :=
  match v with
  | .object attributes =>
    if name = "__dict__" then some (.mapping (attributes.map fun row => (.text row.1, row.2)))
    else Table.find? name attributes
  | .record _ fields => Table.find? name fields
  | .type t => typeAttribute? t name
  | .bool b => integerAttribute? (if b then 1 else 0) name
  | .int n => integerAttribute? n name
  | .float x =>
    match name with
    | "real" => some (.float x)
    | "imag" => some (.float (.finite false 0 (-1074)))
    | _ => none
  | .decimal d =>
    match name with
    | "real" => some (.decimal d)
    | "imag" => some (.decimal (.finite false 0 0))
    | "__module__" => some (.text TypeObject.decimal.collection)
    | _ => none
  | .date d => (dateAttribute? d name).or (calendarAttribute? false name)
  | .dateTime d =>
    ((dateAttribute? d.date name).or (timeAttribute? d.time name)).or (calendarAttribute? true name)
  | _ => none

/-- The attribute of a value with a given name. Every value has its type as an attribute. -/
def attribute? (v : Value) (name : String) : Option Value :=
  if name = "__class__" then v.typeObject?.map .type else v.ownAttribute? name

/-- What a mapping has under a name, or the attribute of anything else. -/
def member? (v : Value) (name : String) : Option Value :=
  match v.entries? with
  | some entries => Table.find? (.text name) entries
  | none => v.attribute? name

/-- The first of the named members that is there. -/
def firstMember? (v : Value) : List String → Option Value
  | [] => none
  | name :: rest => (v.member? name).or (v.firstMember? rest)

/-- The first of the named members that is there, or nothing. -/
def read (v : Value) (names : List String) : Value := (v.firstMember? names).getD .null

/-- The items that a value consists of: of a mapping its keys, of a text its characters, of bytes
their numbers. -/
def elements (v : Value) : Except Failure (List Value) :=
  match v with
  | .list items | .tuple items | .set items => .ok items
  | .text s => .ok (s.toList.map fun c => .text (String.ofList [c]))
  | .bytes content => .ok (content.map fun b => .int b.toNat)
  | v => match v.entries? with
    | some entries => .ok (entries.map (·.1))
    | none => .error .typeMismatch

/-- The fields of a record that do not take part in telling records apart quickly. -/
def unhashedFields : List String := ["properties", "relations", "raw_properties"]

mutual

/-- Whether a value can be the key of a mapping or the item of a set: it must not be able to change,
nor be a signalling decimal. -/
def isHashable (v : Value) : Bool :=
  match v with
  | .list _ | .mapping _ | .knot .. | .object _ | .decimal (.undefined _ true _ _) => false
  | .tuple items => allHashable items
  | .record _ fields => fieldsHashable fields
  | _ => true
termination_by structural v

def allHashable (items : List Value) : Bool :=
  match items with
  | [] => true
  | v :: rest => v.isHashable && allHashable rest
termination_by structural items

def fieldsHashable (fields : List (String × Value)) : Bool :=
  match fields with
  | [] => true
  | (name, v) :: rest => (unhashedFields.contains name || v.isHashable) && fieldsHashable rest
termination_by structural fields

end

/-- The items of a value without repetitions, for membership tests. A value that counts as false has
none. -/
def toSet (v : Value) : Except Failure (List Value) :=
  if v.isTrue then
    v.elements.bind fun items =>
      if items.all isHashable then .ok (distinct items) else .error .typeMismatch
  else .ok []

/-- How an operation of mappings fails on a value that is none: the value lacks the operation,
unless it has an attribute of that name or is the type of mappings itself. -/
def withoutOperation (v : Value) (name : String) : Failure :=
  match v with
  | .type .mapping => .typeMismatch
  | v => if (v.attribute? name).isSome then .typeMismatch else .missingMethod

/-- The types whose plain instances are empty collections. -/
def collectionTypes : List TypeObject := [.text, .bytes, .list, .tuple, .set, .mapping]

/-- The type that an attribute object has in place of an operation. Using the operation makes a
value of the type of whatever the operation is given. -/
def standIn? (v : Value) (operation : String) : Option TypeObject :=
  match v with
  | .object attributes => match Table.find? operation attributes with
    | some (.type t) => some t
    | _ => none
  | _ => none

/-- Whether an attribute object stands in for an operation of mappings by a type of collections,
which makes an empty one of nothing. -/
def makesEmpty (v : Value) (operation : String) : Bool :=
  (v.standIn? operation).any collectionTypes.contains

/-- The entries of a value that has to be a mapping. A value that counts as false has none. -/
def items (v : Value) : Except Failure (List (Value × Value)) :=
  if v.isTrue then
    match v.entries? with
    | some entries => .ok entries
    | none => if v.makesEmpty "items" then .ok [] else .error (v.withoutOperation "items")
  else .ok []

/-- Only a mapping without entries counts as false. -/
theorem isTrue_of_entries {v : Value} {entries : List (Value × Value)}
    (h : v.entries? = some entries) : v.isTrue = !entries.isEmpty := by
  cases v with
  | mapping _ =>
    cases h
    rfl
  | knot before key after form =>
    cases form <;> cases h <;> simp [isTrue]
  | _ => cases h

theorem items_of_entries {v : Value} {entries : List (Value × Value)}
    (h : v.entries? = some entries) : v.items = .ok entries := by
  unfold items
  rw [isTrue_of_entries h, h]
  cases entries <;> rfl

/-- The rows of a list of pairs, from the given index on. -/
def pairRows (index : Nat) : List Value → Except Failure (List (Value × Value))
  | [] => .ok []
  | row :: rest =>
    row.elements.bind fun parts =>
      match parts with
      | [key, value] =>
        if key.isHashable then (pairRows (index + 1) rest).map ((key, value) :: ·)
        else .error .typeMismatch
      | parts => .error (.unevenRow index parts.length)

/-- The rows that a value adds to a table: those of a mapping, or the pairs that a value consists
of. -/
def rows (v : Value) : Except Failure (List (Value × Value)) :=
  match v.entries? with
  | some entries => .ok entries
  | none => if v.makesEmpty "keys" then .ok [] else v.elements.bind (pairRows 0)

/-- The rows of a value that may be missing. A value that counts as false has none. -/
def optionalRows (v : Value) : Except Failure (List (Value × Value)) :=
  if v.isTrue then v.rows else .ok []

end ModelSchema.Value
