import ModelSchema.Proofs.Scalar.Literals

/-!
# Variables inside literals

A variable inside an object or a list stands for what the variables of the query hold under its
name. Main statement: the collection has the value of the same collection with the literals of these
values in place of the variables, and null where there is none; and the value is refused exactly if
a part of another kind is reached, whatever the variables hold.
-/

namespace ModelSchema

variable {bindings : Value} {node : Literal}

namespace Literal

mutual

/-- The literal with the literals of their values in place of the variables. -/
def substitute (bindings : Value) (node : Literal) : Literal :=
  match node with
  | .object fields => .object (substituteFields bindings fields)
  | .list items => .list (substituteItems bindings items)
  | .variable name => ofValue (boundValue bindings name)
  | node => node
termination_by structural node

def substituteFields (bindings : Value) (fields : List (String × Literal)) :
    List (String × Literal) :=
  match fields with
  | [] => []
  | (name, node) :: rest => (name, substitute bindings node) :: substituteFields bindings rest
termination_by structural fields

def substituteItems (bindings : Value) (items : List Literal) : List Literal :=
  match items with
  | [] => []
  | node :: rest => substitute bindings node :: substituteItems bindings rest
termination_by structural items

end

/-- The variables hold values that are put together from plain ones, without integers that are too
long. -/
def HoldsJson (bindings : Value) : Prop :=
  ∀ entries, bindings.entries? = some entries →
    ∀ entry ∈ entries, Json.Writable entry.2 ∧ entry.2.isShowable = true

theorem HoldsJson.boundValue (h : HoldsJson bindings) (name : String) :
    Json.Writable (boundValue bindings name) ∧ (boundValue bindings name).isShowable = true := by
  rw [Literal.boundValue]
  cases hentries : bindings.entries? with
  | none => exact ⟨.null, rfl⟩
  | some entries =>
    rw [Option.getD_some]
    cases hfound : Table.find? (.text name) entries with
    | none => exact ⟨.null, rfl⟩
    | some v =>
      obtain ⟨entry, hentry, -, rfl⟩ := Table.mem_of_find? hfound
      exact h entries hentries entry hentry

theorem fieldValues_substitute {fields : List (String × Literal)} {others : Value}
    (h : ∀ field ∈ fields, (field.2.substitute bindings).value others = field.2.value bindings) :
    fieldValues others (substituteFields bindings fields) = fieldValues bindings fields := by
  induction fields with
  | nil => rfl
  | cons field rest ih =>
    rw [List.forall_mem_cons] at h
    rw [substituteFields, fieldValues, fieldValues, h.1, ih h.2]

theorem itemValues_substitute {items : List Literal} {others : Value}
    (h : ∀ item ∈ items, (item.substitute bindings).value others = item.value bindings) :
    itemValues others (substituteItems bindings items) = itemValues bindings items := by
  induction items with
  | nil => rfl
  | cons item rest ih =>
    rw [List.forall_mem_cons] at h
    rw [substituteItems, itemValues, itemValues, h.1, ih h.2]

/-- After the substitution a literal stands for its value without the variables. -/
theorem value_substitute (hb : IsVariables bindings) (hj : HoldsJson bindings) (others : Value)
    (node : Literal) : (node.substitute bindings).value others = node.value bindings := by
  induction node using contents_induction with
  | step node ih =>
    cases node with
    | object fields =>
      have hfields := fieldValues_substitute fun field hfield =>
        ih field.2 (List.mem_map_of_mem hfield)
      rw [substitute, value, hfields, value]
    | list items =>
      have hitems :
          itemValues others (substituteItems bindings items) = itemValues bindings items :=
        itemValues_substitute ih
      rw [substitute, value, hitems, value]
    | «variable» name =>
      obtain ⟨hwritable, hshown⟩ := hj.boundValue name
      rw [substitute, value_ofValue hwritable hshown, value, variableValue_eq hb]
    | _ => rfl

end Literal

namespace JsonScalar

open Literal

theorem parseLiteral_collection (h : node.IsCollection) (bindings : Value) :
    parseLiteral bindings node = node.value bindings := by
  rcases h with ⟨fields, rfl⟩ | ⟨items, rfl⟩ <;> rfl

theorem isCollection_substitute (h : node.IsCollection) (bindings : Value) :
    (node.substitute bindings).IsCollection := by
  rcases h with ⟨fields, rfl⟩ | ⟨items, rfl⟩
  · exact .inl ⟨_, rfl⟩
  · exact .inr ⟨_, rfl⟩

/-- The variables of a collection can be replaced by the literals of what they hold, if no integer
in these is too long. If its numbers are well formed and no integer among them is too long, then a
collection is refused exactly if a part of another kind is reached, and otherwise it has a value. -/
theorem parseLiteral_substitute (hnode : node.IsCollection) (hb : IsVariables bindings) :
    (HoldsJson bindings → ∀ others,
      parseLiteral bindings node = parseLiteral others (node.substitute bindings)) ∧
    (node.WellFormed → node.Short →
      ((∃ kind, parseLiteral bindings node = .error (.unsupportedLiteral kind "JSON")) ↔
        ∃ kind, node.Reaches (.other kind)) ∧
      ((∀ kind, ¬ node.Reaches (.other kind)) → ∃ v, parseLiteral bindings node = .ok v)) := by
  rw [parseLiteral_collection hnode]
  constructor
  · intro hj others
    rw [parseLiteral_collection (isCollection_substitute hnode bindings),
      value_substitute hb hj others node]
  · intro hformed hshort
    rcases hformed.decided hshort hb with ⟨v, hv, hnone⟩ | ⟨kind, hv, hreach⟩
    · refine ⟨iff_of_false ?_ (fun ⟨kind, hreach⟩ => hnone kind hreach), fun _ => ⟨v, hv⟩⟩
      rw [hv]
      rintro ⟨kind, herror⟩
      cases herror
    · exact ⟨iff_of_true ⟨kind, hv⟩ ⟨kind, hreach⟩, fun hnone => absurd hreach (hnone kind)⟩

/-- A filter with a variable that is bound, one that is not, and a name that is given twice. -/
def filter : Literal :=
  .object [("status", .int "10"), ("status", .list [.variable "status", .text "open"]),
    ("after", .variable "after")]

/-- The status is a text that is JSON itself. -/
def filterVariables : Value := .mapping [(.text "status", .text "[1]")]

theorem filter_throughout {P : Literal → Prop} (hint : P (.int "10")) (htext : P (.text "open"))
    (hlist : ∀ items, P (.list items)) (hobject : ∀ fields, P (.object fields))
    (hvariable : ∀ name, P (.variable name)) : filter.Throughout P := by
  have hleaf : ∀ node ∈ [Literal.int "10", .variable "status", .text "open", .variable "after"],
      node.Throughout P := by
    intro node hnode
    simp only [List.mem_cons, List.not_mem_nil, or_false] at hnode
    rcases hnode with rfl | rfl | rfl | rfl
    all_goals exact throughout_of_contents (by simp [hint, htext, hvariable]) (by simp [contents])
  simp only [List.forall_mem_cons] at hleaf
  obtain ⟨hint, hstatus, htext, hafter, -⟩ := hleaf
  have hinner : (Literal.list [.variable "status", .text "open"]).Throughout P :=
    throughout_of_contents (hlist _) (by simp [contents, hstatus, htext])
  exact throughout_of_contents (hobject _) (by simp [filter, contents, hint, hinner, hafter])

theorem filter_wellFormed : filter.WellFormed := by
  have hten : Number.IsIntegerLiteral "10" := Number.isIntegerLiteral_integerText 10
  apply filter_throughout <;> simp [IsSpelt, hten]

theorem filter_short : filter.Short := by
  have hten : IsShort (.int "10") := by
    have hcount : Number.textDigits "10".toList = 2 := Number.textDigits_integerText 10
    rw [IsShort, hcount]
    decide
  apply filter_throughout hten <;> simp [IsShort]

theorem filterVariables_holdsJson : HoldsJson filterVariables := by
  rintro entries ⟨⟩ entry hentry
  rw [List.mem_singleton.mp hentry]
  exact ⟨.text _, rfl⟩

/-- The status is kept as it is and the missing variable is null. -/
theorem parseLiteral_substitute_filter :
    filter.IsCollection ∧ IsVariables filterVariables ∧ HoldsJson filterVariables ∧
      filter.WellFormed ∧ filter.Short ∧
      parseLiteral filterVariables filter = .ok (.mapping
        [(.text "status", .list [.text "[1]", .text "open"]), (.text "after", .null)]) := by
  have hnode : filter.IsCollection := .inl ⟨_, rfl⟩
  have hb : IsVariables filterVariables := .inr rfl
  obtain ⟨hsubstitute, -⟩ := parseLiteral_substitute hnode hb
  refine ⟨hnode, hb, filterVariables_holdsJson, filter_wellFormed, filter_short, ?_⟩
  rw [hsubstitute filterVariables_holdsJson .null]
  rfl

section Long

variable {n : Int}

/-- The variables of a query with a count. -/
def countVariables (n : Int) : Value := .mapping [(.text "count", .int n)]

/-- A list of a count and a part that stands for no value. -/
def countList (n : Int) : Literal := .list [.int (Number.integerText n), .other "Name"]

theorem countList_wellFormed (n : Int) : (countList n).WellFormed := by
  have hleaf : ∀ part ∈ (countList n).contents, part.WellFormed := by
    simp only [countList, contents, List.forall_mem_cons]
    refine ⟨throughout_of_contents ?_ (by simp [contents]),
      throughout_of_contents trivial (by simp [contents]), by simp⟩
    exact Number.isIntegerLiteral_integerText n
  exact throughout_of_contents trivial hleaf

/-- A variable may hold an integer whose literal stands for nothing, and a list fails with the first
part that stands for nothing. -/
theorem parseLiteral_count (hn : Number.isShort n = false) :
    let node : Literal := .list [.variable "count"]
    let failure : Failure := .notInteger (.textTooLong (Number.digitCount n))
    parseLiteral (countVariables n) node = .ok (.list [.int n]) ∧
      parseLiteral .null (node.substitute (countVariables n)) = .error failure ∧
      parseLiteral .null (countList n) = .error failure := by
  intro node failure
  have hlong : (Literal.int (Number.integerText n)).value .null = .error failure :=
    value_ofValue_long hn .null
  have hlist (rest : List Literal) :
      (Literal.list (.int (Number.integerText n) :: rest)).value .null = .error failure := by
    rw [value, itemValues, hlong]
    rfl
  exact ⟨rfl, hlist [], hlist [.other "Name"]⟩

end Long

/-- With a long integer a variable and its literal differ, and a list with a part that stands for no
value fails for another reason. -/
theorem parseLiteral_substitute_long :
    let node : Literal := .list [.variable "count"]
    let failure : Failure := .notInteger (.textTooLong (Number.digitCount longInteger))
    Json.Writable (.int longInteger) ∧
      parseLiteral (countVariables longInteger) node = .ok (.list [.int longInteger]) ∧
      parseLiteral .null (node.substitute (countVariables longInteger)) = .error failure ∧
      (countList longInteger).IsCollection ∧ (countList longInteger).WellFormed ∧
      (countList longInteger).Reaches (.other "Name") ∧
      parseLiteral .null (countList longInteger) = .error failure := by
  intro node failure
  obtain ⟨hkept, hreplaced, hlist⟩ := parseLiteral_count longInteger_not_short
  exact ⟨.int _, hkept, hreplaced, .inr ⟨_, rfl⟩, countList_wellFormed _,
    .single (by simp [countList, contents]), hlist⟩

end JsonScalar

end ModelSchema
