import ModelSchema.Calendar.Error
import ModelSchema.Number.Shortest
import ModelSchema.Value.Basic

/-!
# The text of a value

Values are shown in names, labels and messages. Inside other values text stands between quotes;
alone it stands as it is. A knot shows three dots where it would show itself again.
-/

namespace ModelSchema

open Number (integerText naturalText)

/-- A date with a time as a message shows it: fields at the end that are zero are left out, down to
the minute. -/
def dateTimeQuoted (d : Calendar.DateTime) : String :=
  let fields := [d.date.year, d.date.month, d.date.day, d.time.hour, d.time.minute] ++
    (if d.time.microsecond ≠ 0 then [d.time.second, d.time.microsecond]
      else if d.time.second ≠ 0 then [d.time.second] else [])
  let zone := match d.offset with
    | none => []
    | some offset =>
      ["tzinfo=" ++
        (if offset.microseconds = 0 then "datetime.timezone.utc"
          else "datetime.timezone(" ++ Calendar.durationText offset.microseconds ++ ")")]
  Text.bracketed "datetime.datetime(" (fields.map naturalText ++ zone) ")"

namespace Value

mutual

/-- The text of a value inside other values. -/
def quoted (v : Value) : String :=
  match v with
  | .null => "None"
  | .bool b => if b then "True" else "False"
  | .int n => integerText n
  | .float x => x.text
  | .text s => Text.quote s
  | .list items => Text.bracketed "[" (quotedItems items) "]"
  | .tuple items =>
    match quotedItems items with
    | [item] => "(" ++ item ++ ",)"
    | texts => Text.bracketed "(" texts ")"
  | .mapping entries => Text.bracketed Text.openingBrace (quotedEntries entries) Text.closingBrace
  | .knot before key after form =>
    let self := Text.openingBrace ++ "..." ++ Text.closingBrace
    let inner (value : String) : String :=
      Text.bracketed Text.openingBrace
        (quotedEntries before ++ (key.quoted ++ ": " ++ value) :: quotedEntries after)
        Text.closingBrace
    let wrap (value : String) : String :=
      Text.openingBrace ++ "'type': " ++ value ++ Text.closingBrace
    match form with
    | .direct => inner self
    | .wrapped => inner (wrap self)
    | .wrapper => wrap (inner self)
  | .object attributes => Text.bracketed "namespace(" (quotedFields attributes) ")"
  | .record shape fields => Text.bracketed (shape ++ "(") (quotedFields fields) ")"
  | .set items =>
    if items.isEmpty then "frozenset()"
    else
      Text.bracketed ("frozenset(" ++ Text.openingBrace) (quotedItems items)
        (Text.closingBrace ++ ")")
  | .type t => "<class '" ++ t.qualifiedName ++ "'>"
  | .date d => Text.bracketed "datetime.date(" ([d.year, d.month, d.day].map naturalText) ")"
  | .dateTime d => dateTimeQuoted d
  | .decimal d => "Decimal('" ++ d.text ++ "')"
  | .bytes content => Text.quoteBytes content
  | .enumerator _ written => written
termination_by structural v

def quotedItems (items : List Value) : List String :=
  match items with
  | [] => []
  | v :: rest => v.quoted :: quotedItems rest
termination_by structural items

def quotedEntries (entries : List (Value × Value)) : List String :=
  match entries with
  | [] => []
  | (k, v) :: rest => (k.quoted ++ ": " ++ v.quoted) :: quotedEntries rest
termination_by structural entries

/-- The texts of named fields. A field without a name is not shown. -/
def quotedFields (fields : List (String × Value)) : List String :=
  match fields with
  | [] => []
  | (name, v) :: rest =>
    if name = "" then quotedFields rest else (name ++ "=" ++ v.quoted) :: quotedFields rest
termination_by structural fields

end

mutual

/-- Whether a value is shown at all: the integers inside must not be too long. -/
def isShowable (v : Value) : Bool :=
  match v with
  | .int n => Number.isShort n
  | .list items => itemsShowable items
  | .tuple items => itemsShowable items
  | .set items => itemsShowable items
  | .mapping entries => entriesShowable entries
  | .knot before key after _ =>
    entriesShowable before && key.isShowable && entriesShowable after
  | .object attributes => fieldsShowable attributes
  | .record _ fields => fieldsShowable fields
  | _ => true
termination_by structural v

def itemsShowable (items : List Value) : Bool :=
  match items with
  | [] => true
  | v :: rest => v.isShowable && itemsShowable rest
termination_by structural items

def entriesShowable (entries : List (Value × Value)) : Bool :=
  match entries with
  | [] => true
  | (k, v) :: rest => k.isShowable && v.isShowable && entriesShowable rest
termination_by structural entries

def fieldsShowable (fields : List (String × Value)) : Bool :=
  match fields with
  | [] => true
  | (name, v) :: rest => (name = "" || v.isShowable) && fieldsShowable rest
termination_by structural fields

end

theorem itemsShowable_iff {items : List Value} :
    itemsShowable items = true ↔ ∀ v ∈ items, v.isShowable = true := by
  induction items with
  | nil => simp [itemsShowable]
  | cons v rest ih => rw [itemsShowable, Bool.and_eq_true, ih, List.forall_mem_cons]

theorem entriesShowable_iff {entries : List (Value × Value)} :
    entriesShowable entries = true ↔
      ∀ entry ∈ entries, entry.1.isShowable = true ∧ entry.2.isShowable = true := by
  induction entries with
  | nil => simp [entriesShowable]
  | cons entry rest ih =>
    rw [entriesShowable, Bool.and_eq_true, Bool.and_eq_true, ih, List.forall_mem_cons]

/-- The text of a value on its own. -/
def plain : Value → String
  | .text s => s
  | .date d => d.isoText
  | .dateTime d => d.plainText
  | .decimal d => d.text
  | v => v.quoted

@[simp] theorem plain_text (s : String) : plain (.text s) = s := rfl

end Value

end ModelSchema
