import ModelSchema.Proofs.Execution
import ModelSchema.Proofs.Scalar.JsonText

/-!
# Literals and their values

A literal stands for the value that its fields and items stand for, part by part: what the value
holds at a path is what the literal holds there (`value_at`). Every value that is put together from
plain ones has a literal. Main statement: the literal of such a value stands for the value, and so
does its JSON text; a text that stands alone is read as JSON, one inside a literal is kept.
-/

namespace ModelSchema

variable {bindings v w : Value} {node part : Literal} {P : Literal → Prop}

namespace Literal

/-- The literals that an object or a list is made of. -/
def contents : Literal → List Literal
  | .object fields => fields.map Prod.snd
  | .list items => items
  | _ => []

/-- A literal is reached through the fields of objects and the items of lists. -/
def Reaches : Literal → Literal → Prop :=
  Relation.ReflTransGen fun node part => part ∈ node.contents

/-- The property holds of every literal that is reached. -/
def Throughout (P : Literal → Prop) (node : Literal) : Prop := ∀ part, node.Reaches part → P part

/-- A number is spelt as the language of queries spells numbers. -/
def IsSpelt : Literal → Prop
  | .int digits => Number.IsIntegerLiteral digits
  | .float digits => Number.IsDecimalLiteral digits
  | _ => True

/-- The numbers of a literal are spelt as the language of queries spells numbers. -/
def WellFormed : Literal → Prop := Throughout IsSpelt

/-- An integer has no more digits than are read. -/
def IsShort : Literal → Prop
  | .int digits => Number.textDigits digits.toList ≤ Number.digitLimit
  | _ => True

/-- The integers of a literal have no more digits than are read. -/
def Short : Literal → Prop := Throughout IsShort

/-- An object or a list. -/
def IsCollection (node : Literal) : Prop :=
  (∃ fields, node = .object fields) ∨ ∃ items, node = .list items

theorem Reaches.of_mem (hpart : part ∈ node.contents) {other : Literal} (h : part.Reaches other) :
    node.Reaches other :=
  .head hpart h

theorem Throughout.of_mem (h : node.Throughout P) (hpart : part ∈ node.contents) :
    part.Throughout P :=
  fun other hother => h other (.of_mem hpart hother)

theorem reaches_iff_of_no_contents (h : node.contents = []) : node.Reaches part ↔ part = node := by
  constructor
  · intro hreach
    rcases hreach.cases_head with rfl | ⟨child, hchild, -⟩
    · rfl
    · rw [h] at hchild
      cases hchild
  · rintro rfl
    exact .refl

theorem reaches_iff_of_isCollection (h : node.IsCollection) (hpart : ¬ part.IsCollection) :
    node.Reaches part ↔ ∃ child ∈ node.contents, child.Reaches part := by
  constructor
  · intro hreach
    rcases hreach.cases_head with rfl | hchild
    · exact absurd h hpart
    · exact hchild
  · rintro ⟨child, hchild, hreach⟩
    exact .of_mem hchild hreach

theorem throughout_of_contents (h : P node) (hparts : ∀ part ∈ node.contents, part.Throughout P) :
    node.Throughout P := by
  intro other hother
  rcases hother.cases_head with rfl | ⟨part, hpart, hreach⟩
  · exact h
  · exact hparts part hpart other hreach

theorem sizeOf_lt_of_mem_contents (h : part ∈ node.contents) : sizeOf part < sizeOf node := by
  cases node with
  | object fields =>
    obtain ⟨field, hfield, rfl⟩ := List.mem_map.mp h
    have hlt := List.sizeOf_lt_of_mem hfield
    have hpair : sizeOf field = 1 + sizeOf field.1 + sizeOf field.2 := rfl
    simp only [object.sizeOf_spec]
    omega
  | list items =>
    have hlt := List.sizeOf_lt_of_mem (show part ∈ items from h)
    simp only [list.sizeOf_spec]
    omega
  | _ => cases h

/-- What holds of a literal if it holds of the literals that it is made of, holds of all
literals. -/
theorem contents_induction {P : Literal → Prop}
    (step : ∀ node, (∀ part ∈ node.contents, P part) → P node) (node : Literal) : P node :=
  step node fun part _hpart => contents_induction step part
termination_by sizeOf node
decreasing_by exact sizeOf_lt_of_mem_contents _hpart

theorem itemValues_map_snd (bindings : Value) (fields : List (String × Literal)) :
    itemValues bindings (fields.map Prod.snd) =
      (fieldValues bindings fields).map fun rows => rows.map Prod.snd := by
  induction fields with
  | nil => rfl
  | cons field rest ih =>
    simp only [fieldValues, List.map_cons, itemValues, ih]
    cases field.2.value bindings with
    | error e => rfl
    | ok v => cases fieldValues bindings rest <;> rfl

theorem forall₂_of_itemValues {items : List Literal} {values : List Value}
    (h : itemValues bindings items = .ok values) :
    List.Forall₂ (fun node v => node.value bindings = .ok v) items values := by
  induction items generalizing values with
  | nil =>
    cases h
    exact .nil
  | cons node rest ih =>
    rw [itemValues] at h
    obtain ⟨v, hv, h⟩ := exists_of_bind_ok h
    obtain ⟨others, hothers, rfl⟩ := exists_of_map_ok h
    exact .cons hv (ih hothers)

theorem forall₂_of_fieldValues {fields : List (String × Literal)} {rows : List (Value × Value)}
    (h : fieldValues bindings fields = .ok rows) :
    List.Forall₂ (fun field row => row.1 = .text field.1 ∧ field.2.value bindings = .ok row.2)
      fields rows := by
  induction fields generalizing rows with
  | nil =>
    cases h
    exact .nil
  | cons field rest ih =>
    rw [fieldValues] at h
    obtain ⟨v, hv, h⟩ := exists_of_bind_ok h
    obtain ⟨others, hothers, rfl⟩ := exists_of_map_ok h
    exact .cons ⟨rfl, hv⟩ (ih hothers)

theorem itemValues_of_forall₂ {items : List Literal} {values : List Value}
    (h : List.Forall₂ (fun node v => node.value bindings = .ok v) items values) :
    itemValues bindings items = .ok values := by
  induction h with
  | nil => rfl
  | cons hv _ ih =>
    rw [itemValues, hv, ih]
    rfl

/-- A step into a collection. -/
inductive Step where
  | field (name : String)
  | item (index : Nat)

/-- What a literal holds at a path. Of several fields with a name the last one counts. -/
def at? : List Step → Literal → Option Literal
  | [], node => some node
  | .field name :: path, .object fields => (Table.find? name fields.reverse).bind (at? path)
  | .item index :: path, .list items => items[index]?.bind (at? path)
  | _, _ => none

end Literal

/-- What a value holds at a path. -/
def Value.at? : List Literal.Step → Value → Option Value
  | [], v => some v
  | .field name :: path, .mapping entries => (Table.find? (.text name) entries).bind (at? path)
  | .item index :: path, .list items => items[index]?.bind (at? path)
  | _, _ => none

namespace Literal

theorem find?_of_forall₂ {fields : List (String × Literal)} {rows : List (Value × Value)}
    {name : String}
    (h : List.Forall₂ (fun field row => row.1 = .text field.1 ∧
      field.2.value bindings = .ok row.2) fields rows)
    (hfound : Table.find? name fields = some part) :
    ∃ w, Table.find? (.text name) rows = some w ∧ part.value bindings = .ok w := by
  induction h with
  | nil => cases hfound
  | @cons field row fields rows hrow _ ih =>
    obtain ⟨n, node⟩ := field
    obtain ⟨key, v⟩ := row
    obtain ⟨rfl, hv⟩ := hrow
    rw [Table.find?] at hfound
    rw [Table.find?, Value.text_beq_text]
    split at hfound
    · cases hfound
      exact ⟨v, by rw [if_pos ‹_›], hv⟩
    · obtain ⟨w, hw, hpart⟩ := ih hfound
      exact ⟨w, by rw [if_neg ‹_›, hw], hpart⟩

theorem find?_ofRows {fields : List (String × Literal)} {rows : List (Value × Value)}
    {name : String}
    (h : fieldValues bindings fields = .ok rows)
    (hfound : Table.find? name fields.reverse = some part) :
    ∃ w, Table.find? (.text name) (Table.ofRows rows) = some w ∧ part.value bindings = .ok w := by
  have hreverse := List.forall₂_reverse_iff.mpr (forall₂_of_fieldValues h)
  obtain ⟨w, hw, hpart⟩ := find?_of_forall₂ hreverse hfound
  refine ⟨w, ?_, hpart⟩
  rw [Table.ofRows, Table.find?_merge, hw, Option.some_or]

/-- What the value of a literal holds at a path is the value of what the literal holds there. -/
theorem value_at {path : List Step} (hpart : node.at? path = some part)
    (hv : node.value bindings = .ok v) :
    ∃ w, part.value bindings = .ok w ∧ v.at? path = some w := by
  induction path generalizing node v with
  | nil =>
    cases hpart
    exact ⟨v, hv, rfl⟩
  | cons step path ih =>
    cases step with
    | field name =>
      cases node with
      | object fields =>
        obtain ⟨child, hchild, hpart⟩ := Option.bind_eq_some_iff.mp hpart
        rw [value] at hv
        obtain ⟨rows, hrows, rfl⟩ := exists_of_map_ok hv
        obtain ⟨u, hu, hvalue⟩ := find?_ofRows hrows hchild
        obtain ⟨w, hw, hat⟩ := ih hpart hvalue
        exact ⟨w, hw, by rw [Value.at?, hu]; exact hat⟩
      | _ => cases hpart
    | item index =>
      cases node with
      | list items =>
        obtain ⟨child, hchild, hpart⟩ := Option.bind_eq_some_iff.mp hpart
        rw [value] at hv
        obtain ⟨values, hvalues, rfl⟩ := exists_of_map_ok hv
        have hall := forall₂_of_itemValues hvalues
        obtain ⟨hindex, rfl⟩ := List.getElem?_eq_some_iff.mp hchild
        have hindex' : index < values.length := hall.length_eq ▸ hindex
        obtain ⟨w, hw, hat⟩ := ih hpart (hall.get hindex hindex')
        refine ⟨w, hw, ?_⟩
        rw [Value.at?, List.getElem?_eq_getElem hindex']
        exact hat
      | _ => cases hpart

/-- The variables of a query: a mapping, or nothing. -/
def IsVariables (bindings : Value) : Prop := bindings = .null ∨ bindings.isMapping = true

/-- What the variables hold under a name, null if they hold nothing. -/
def boundValue (bindings : Value) (name : String) : Value :=
  (Table.find? (.text name) (bindings.entries?.getD [])).getD .null

theorem variableValue_eq (h : IsVariables bindings) (name : String) :
    variableValue bindings name = .ok (boundValue bindings name) := by
  rcases h with rfl | h
  · rfl
  · obtain ⟨entries, hentries⟩ := Option.isSome_iff_exists.mp h
    rw [variableValue, boundValue, Value.isTrue_of_entries hentries, hentries]
    cases entries <;> rfl

/-- A literal has a value, or a part of another kind is reached and reported. -/
def Decided (bindings : Value) (node : Literal) : Prop :=
  (∃ v, node.value bindings = .ok v ∧ ∀ kind, ¬ node.Reaches (.other kind)) ∨
    ∃ kind, node.value bindings = .error (.unsupportedLiteral kind "JSON") ∧
      node.Reaches (.other kind)

theorem decided_items {items : List Literal} (h : ∀ node ∈ items, Decided bindings node) :
    (∃ values, itemValues bindings items = .ok values ∧
      ∀ node ∈ items, ∀ kind, ¬ node.Reaches (.other kind)) ∨
    ∃ kind, itemValues bindings items = .error (.unsupportedLiteral kind "JSON") ∧
      ∃ node ∈ items, node.Reaches (.other kind) := by
  induction items with
  | nil => exact .inl ⟨[], rfl, by simp⟩
  | cons node rest ih =>
    rw [List.forall_mem_cons] at h
    rw [itemValues]
    rcases h.1 with ⟨v, hv, hnone⟩ | ⟨kind, hv, hreach⟩
    · rcases ih h.2 with ⟨values, hvalues, hrest⟩ | ⟨kind, hvalues, part, hpart, hreach⟩
      · exact .inl ⟨v :: values, by rw [hv, hvalues]; rfl, List.forall_mem_cons.mpr ⟨hnone, hrest⟩⟩
      · exact .inr ⟨kind, by rw [hv, hvalues]; rfl, part, List.mem_cons_of_mem _ hpart, hreach⟩
    · exact .inr ⟨kind, by rw [hv]; rfl, node, List.mem_cons_self, hreach⟩

/-- A collection has a value if its parts have values, and fails like the first that fails. -/
theorem value_collection (h : node.IsCollection) (bindings : Value) :
    (∀ values, itemValues bindings node.contents = .ok values → ∃ v, node.value bindings = .ok v) ∧
      ∀ e, itemValues bindings node.contents = .error e → node.value bindings = .error e := by
  rcases h with ⟨fields, rfl⟩ | ⟨items, rfl⟩
  · have hfields := itemValues_map_snd bindings fields
    rw [value, contents, hfields]
    cases fieldValues bindings fields <;> simp [Except.map]
  · rw [value, contents]
    cases itemValues bindings items <;> simp [Except.map]

theorem decided_collection (hcollection : node.IsCollection)
    (h : ∀ part ∈ node.contents, Decided bindings part) : Decided bindings node := by
  obtain ⟨hok, herror⟩ := value_collection hcollection bindings
  have hother : ∀ {kind}, ¬ (Literal.other kind).IsCollection := by simp [IsCollection]
  rcases decided_items h with ⟨values, hvalues, hnone⟩ | ⟨kind, hvalues, hreach⟩
  · obtain ⟨v, hv⟩ := hok values hvalues
    refine .inl ⟨v, hv, ?_⟩
    intro kind hreach
    obtain ⟨part, hpart, hreach⟩ := (reaches_iff_of_isCollection hcollection hother).mp hreach
    exact hnone part hpart kind hreach
  · exact .inr ⟨kind, herror _ hvalues, (reaches_iff_of_isCollection hcollection hother).mpr hreach⟩

theorem decided_of_value (hcontents : node.contents = []) (hkind : ∀ kind, node ≠ .other kind)
    (hv : node.value bindings = .ok v) : Decided bindings node := by
  refine .inl ⟨v, hv, ?_⟩
  intro kind hreach
  exact hkind kind ((reaches_iff_of_no_contents hcontents).mp hreach).symm

theorem WellFormed.decided (h : node.WellFormed) (hs : node.Short) (hb : IsVariables bindings) :
    Decided bindings node := by
  induction node using contents_induction with
  | step node ih =>
    have hparts : ∀ part ∈ node.contents, Decided bindings part :=
      fun part hpart => ih part hpart (Throughout.of_mem h hpart) (Throughout.of_mem hs hpart)
    cases node with
    | object fields => exact decided_collection (.inl ⟨fields, rfl⟩) hparts
    | list items => exact decided_collection (.inr ⟨items, rfl⟩) hparts
    | int digits =>
      have hliteral : Number.IsIntegerLiteral digits := h _ .refl
      obtain ⟨n, -, hn⟩ := hliteral.parseInteger_eq.1 (hs _ .refl)
      apply decided_of_value (v := .int n) rfl (by simp)
      rw [value, TypeObject.ofText, hn]
    | float digits =>
      have hliteral : Number.IsDecimalLiteral digits := h _ .refl
      obtain ⟨x, hx⟩ := hliteral.exists_read
      apply decided_of_value (v := .float x) rfl (by simp)
      rw [value, TypeObject.ofText, hx]
    | «variable» name => exact decided_of_value rfl (by simp) (variableValue_eq hb name)
    | other kind => exact .inr ⟨kind, rfl, .refl⟩
    | _ => exact decided_of_value rfl (by simp) rfl

mutual

/-- The literal of a value that is put together from plain ones. -/
def ofValue (v : Value) : Literal :=
  match v with
  | .bool b => .bool b
  | .int n => .int (Number.integerText n)
  | .text s => .text s
  | .list items => .list (ofItems items)
  | .mapping entries => .object (ofEntries entries)
  | _ => .null
termination_by structural v

def ofItems (items : List Value) : List Literal :=
  match items with
  | [] => []
  | v :: rest => ofValue v :: ofItems rest
termination_by structural items

/-- The fields of an object. Keys that are no texts have no fields. -/
def ofEntries (entries : List (Value × Value)) : List (String × Literal) :=
  match entries with
  | [] => []
  | (.text name, v) :: rest => (name, ofValue v) :: ofEntries rest
  | _ :: rest => ofEntries rest
termination_by structural entries

end

theorem ofItems_eq_map (items : List Value) : ofItems items = items.map ofValue := by
  induction items with
  | nil => rfl
  | cons v rest ih => rw [ofItems, ih, List.map_cons]

theorem fieldValues_ofEntries {entries : List (Value × Value)}
    (hk : ∀ entry ∈ entries, ∃ n, entry.1 = .text n)
    (h : ∀ entry ∈ entries, (ofValue entry.2).value bindings = .ok entry.2) :
    fieldValues bindings (ofEntries entries) = .ok entries := by
  induction entries with
  | nil => rfl
  | cons entry rest ih =>
    rw [List.forall_mem_cons] at hk h
    obtain ⟨key, v⟩ := entry
    obtain ⟨⟨n, rfl⟩, hrest⟩ := hk
    rw [ofEntries, fieldValues, h.1, ih hrest h.2]
    rfl

/-- The literal of a value stands for the value, unless an integer inside is too long. -/
theorem value_ofValue (h : Json.Writable v) (hs : v.isShowable = true) (bindings : Value) :
    (ofValue v).value bindings = .ok v := by
  induction h with
  | null | bool _ | text _ => rfl
  | int n => rw [ofValue, value, TypeObject.ofText, Number.parseInteger_integerText hs]
  | @list items _ ih =>
    have hitems : itemValues bindings (ofItems items) = .ok items := by
      rw [ofItems_eq_map]
      refine itemValues_of_forall₂ (List.forall₂_map_left_iff.mpr (List.forall₂_same.mpr ?_))
      exact fun v hv => ih v hv (Value.itemsShowable_iff.mp hs v hv)
    rw [ofValue, value, hitems]
    rfl
  | mapping hk _ ih =>
    have hfields := fieldValues_ofEntries hk.text fun entry hentry =>
      ih entry hentry (Value.entriesShowable_iff.mp hs entry hentry).2
    rw [ofValue, value, hfields]
    simp only [Except.map, Table.ofRows_eq_self hk.distinct]

theorem value_ofValue_long {n : Int} (hn : Number.isShort n = false) (bindings : Value) :
    (ofValue (.int n)).value bindings =
      .error (.notInteger (.textTooLong (Number.digitCount n))) := by
  rw [ofValue, value, TypeObject.ofText, Number.parseInteger_of_long hn]

theorem exists_of_mem_ofEntries {entries : List (Value × Value)}
    (h : part ∈ (ofEntries entries).map Prod.snd) :
    ∃ w ∈ entries.map Prod.snd, part = ofValue w := by
  induction entries with
  | nil => cases h
  | cons entry rest ih =>
    obtain ⟨key, v⟩ := entry
    cases key with
    | text name =>
      rw [ofEntries, List.map_cons] at h
      rcases List.mem_cons.mp h with rfl | h
      · exact ⟨v, List.mem_cons_self, rfl⟩
      · obtain ⟨w, hw, rfl⟩ := ih h
        exact ⟨w, List.mem_cons_of_mem _ hw, rfl⟩
    | _ =>
      obtain ⟨w, hw, rfl⟩ := ih h
      exact ⟨w, List.mem_cons_of_mem _ hw, rfl⟩

theorem exists_of_reaches_ofValue (h : (ofValue v).Reaches part) :
    ∃ w, v.Reaches w ∧ part = ofValue w := by
  induction h with
  | refl => exact ⟨v, .refl, rfl⟩
  | @tail _ next _ hlast ih =>
    obtain ⟨u, hu, rfl⟩ := ih
    have hnext : ∃ w ∈ u.contents, next = ofValue w := by
      cases u with
      | list items =>
        rw [ofValue, contents, ofItems_eq_map] at hlast
        obtain ⟨w, hw, rfl⟩ := List.mem_map.mp hlast
        exact ⟨w, hw, rfl⟩
      | mapping entries => exact exists_of_mem_ofEntries hlast
      | _ => cases hlast
    obtain ⟨w, hw, rfl⟩ := hnext
    exact ⟨w, .tail hu hw, rfl⟩

theorem wellFormed_ofValue (v : Value) : (ofValue v).WellFormed := by
  intro part hpart
  obtain ⟨w, -, rfl⟩ := exists_of_reaches_ofValue hpart
  cases w with
  | int n => exact Number.isIntegerLiteral_integerText n
  | _ => trivial

theorem short_ofValue (h : Json.Writable v) (hs : v.isShowable = true) : (ofValue v).Short := by
  intro part hpart
  obtain ⟨w, hw, rfl⟩ := exists_of_reaches_ofValue hpart
  have hshown := h.isShowable_of_reaches hs hw
  cases w with
  | int n =>
    rw [ofValue, IsShort, Number.textDigits_integerText]
    exact of_decide_eq_true hshown
  | _ => trivial

end Literal

namespace JsonScalar

open Literal

theorem parseLiteral_eq_value (h : ∀ s, node ≠ .text s) :
    parseLiteral bindings node = node.value bindings := by
  cases node with
  | text s => exact absurd rfl (h s)
  | _ => rfl

theorem ofValue_ne_text (h : ∀ s, v ≠ .text s) (s : String) : ofValue v ≠ .text s := by
  cases v with
  | text t => exact absurd rfl (h t)
  | _ => simp [ofValue]

/-- The literal of a value that is no text stands for the value, and so does its JSON text, unless
an integer inside is too long. A text that stands alone is read like a text that comes in; at a path
inside a literal it is kept. -/
theorem parseLiteral_ofValue (h : Json.Writable v) (hs : v.isShowable = true) (bindings : Value) :
    ((∀ s, v ≠ .text s) →
      parseLiteral bindings (ofValue v) = .ok v ∧
      ∃ text, serialize v = .ok text ∧ parseLiteral bindings (.text text) = .ok v) ∧
    ((∃ s, v = .text s) →
      parseLiteral bindings (ofValue v) = parseValue v ∧
      ∀ node path, path ≠ [] → at? path node = some (ofValue v) →
        (∀ w, parseLiteral bindings node = .ok w → w.at? path = some v) ∧
        (node.WellFormed → node.Short → IsVariables bindings →
          (∀ kind, ¬ node.Reaches (.other kind)) →
          ∃ w, parseLiteral bindings node = .ok w)) := by
  constructor
  · intro hv
    refine ⟨?_, exists_serialize_of_writable h hs⟩
    rw [parseLiteral_eq_value (ofValue_ne_text hv)]
    exact value_ofValue h hs bindings
  · rintro ⟨s, rfl⟩
    refine ⟨rfl, ?_⟩
    intro node path hpath hpart
    have hnode : parseLiteral bindings node = node.value bindings := by
      apply parseLiteral_eq_value
      rintro t rfl
      obtain ⟨step, path, rfl⟩ := List.exists_cons_of_ne_nil hpath
      cases step <;> cases hpart
    rw [hnode]
    constructor
    · intro w hw
      obtain ⟨u, hu, hat⟩ := value_at hpart hw
      cases hu
      exact hat
    · intro hformed hshort hb hnone
      rcases hformed.decided hshort hb with ⟨w, hw, -⟩ | ⟨kind, -, hreach⟩
      · exact ⟨w, hw⟩
      · exact absurd hreach (hnone kind)

/-- An order with a text that is JSON itself. -/
def order : Value :=
  .mapping [(.text "status", .text "[1]"), (.text "lines", .list [.int (-3), .null, .bool true])]

theorem order_writable : Json.Writable order := by
  apply Json.Writable.mapping
  · constructor
    · simp
    · exact List.pairwise_pair.mpr rfl
  · simp only [List.forall_mem_cons]
    refine ⟨.text _, .list ?_, by simp⟩
    simp only [List.forall_mem_cons]
    exact ⟨.int _, .null, .bool _, by simp⟩

theorem order_isShowable : order.isShowable = true := rfl

/-- The status of the order is kept; alone it is read as a list. -/
theorem parseLiteral_ofValue_order :
    Json.Writable order ∧ order.isShowable = true ∧
      parseLiteral .null (ofValue order) = .ok order ∧
      (∃ text, serialize order = .ok text ∧ parseLiteral .null (.text text) = .ok order) ∧
      (ofValue order).WellFormed ∧ (ofValue order).Short ∧
      (∀ kind, ¬ (ofValue order).Reaches (.other kind)) ∧
      (∃ w, parseLiteral .null (ofValue order) = .ok w ∧
        w.at? [.field "status"] = some (.text "[1]")) ∧
      parseLiteral .null (.text "[1]") = .ok (.list [.int 1]) := by
  have hformed := wellFormed_ofValue order
  have hshort := short_ofValue order_writable order_isShowable
  obtain ⟨hliteral, htext⟩ :=
    (parseLiteral_ofValue order_writable order_isShowable .null).1 (by intro s; simp [order])
  obtain ⟨halone, hinside⟩ := (parseLiteral_ofValue (.text "[1]") rfl .null).2 ⟨_, rfl⟩
  have hpath : at? [.field "status"] (ofValue order) = some (ofValue (.text "[1]")) := rfl
  have hnone : ∀ kind, ¬ (ofValue order).Reaches (.other kind) := by
    rcases hformed.decided hshort (.inl rfl : IsVariables .null) with ⟨w, -, hnone⟩ | ⟨kind, hv, -⟩
    · exact hnone
    · rw [value_ofValue order_writable order_isShowable] at hv
      cases hv
  obtain ⟨hkept, hread⟩ := hinside (ofValue order) _ (by simp) hpath
  obtain ⟨w, hw⟩ := hread hformed hshort (.inl rfl) hnone
  exact ⟨order_writable, order_isShowable, hliteral, htext, hformed, hshort, hnone,
    ⟨w, hw, hkept w hw⟩, halone.trans rfl⟩

/-- The literal of a long integer stands for nothing, and the integer has no JSON text. -/
theorem parseLiteral_ofValue_long :
    Json.Writable (.int longInteger) ∧
      parseLiteral .null (ofValue (.int longInteger)) =
        .error (.notInteger (.textTooLong (Number.digitCount longInteger))) ∧
      serialize (.int longInteger) = .error (.jsonUnwritable .longInteger) :=
  ⟨.int _, value_ofValue_long longInteger_not_short .null, serialize_longInteger⟩

end JsonScalar

end ModelSchema
