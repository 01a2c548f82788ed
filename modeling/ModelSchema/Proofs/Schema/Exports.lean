import ModelSchema.Proofs.Schema.Declarations
import ModelSchema.Proofs.Schema.Exportable

/-!
# Exported texts of types

Types whose remarks are texts and whose fields have the same arguments, if they have any, are the
same only if what is exported of them has the same canonical text. Models with such remarks, and
with texts for names, bring only such types into a registry. Comparing them never comes upon a
signal.
-/

namespace ModelSchema

variable {arguments : List (Value × Argument)} {a b : Field} {t u : TypeDescriptor} {m : Model}
  {s : Surroundings} {o : Owner} {p : Property} {c : Compiled} {g : Generator}
  {types : List TypeDescriptor} {fields : List (Value × Field)}

/-- The description of a field is a remark and its arguments, if it has any, are the given ones. -/
structure Field.Plain (arguments : List (Value × Argument)) (f : Field) : Prop where
  description : f.description.IsRemark
  arguments : f.arguments = [] ∨ f.arguments = arguments

theorem eq_of_sameRows_of_choice {xs ys : List (Value × Argument)} (hx : xs = [] ∨ xs = arguments)
    (hy : ys = [] ∨ ys = arguments) (h : sameRows Argument.same xs ys = true) : xs = ys := by
  have hnil : ∀ {zs : List (Value × Argument)}, Covers (relatedRow Argument.same) [] zs →
    zs = [] := by
    intro zs hc
    cases zs with
    | nil => rfl
    | cons z zs =>
      obtain ⟨_, hm, -⟩ := hc.2 z List.mem_cons_self
      cases hm
  have hnil' : ∀ {zs : List (Value × Argument)}, Covers (relatedRow Argument.same) zs [] →
    zs = [] := by
    intro zs hc
    cases zs with
    | nil => rfl
    | cons z zs =>
      obtain ⟨_, hm, -⟩ := hc.1 z List.mem_cons_self
      cases hm
  have hcover := sameRows_iff.mp h
  rcases hx with rfl | rfl
  · exact (hnil hcover).symm
  · rcases hy with rfl | rfl
    · exact hnil' hcover
    · rfl

theorem Field.exported_eq_of_same (ha : a.Plain arguments) (hb : b.Plain arguments)
    (h : a.same b = true) : a.exported = b.exported := by
  obtain ⟨hagrees, hdesc, hargs⟩ := same_iff.mp h
  obtain ⟨-, htype, hlist, hscalar, hkind, hrel, hconn, hrkind, hembed, hreq, hhidden, hnested⟩ :=
    agrees_iff.mp hagrees
  have hdesc' : a.description = b.description := ha.description.eq_of_same hdesc
  have hargs' : a.arguments = b.arguments :=
    eq_of_sameRows_of_choice ha.arguments hb.arguments hargs
  rw [exported, exported, htype, hlist, hscalar, hkind, hrel, hconn, hrkind, hembed, hreq, hhidden,
    hnested, hdesc', hargs']

/-- The descriptions of arguments are remarks. -/
def Remarked (arguments : List (Value × Argument)) : Prop :=
  ∀ row ∈ arguments, row.2.description.IsRemark

theorem argumentsSignal_eq_false {xs : List (Value × Argument)} (h : Remarked xs)
    (ys : List (Value × Argument)) : rowsSignal Argument.signals Argument.same xs ys = false := by
  induction xs with
  | nil => rfl
  | cons row xs ih =>
    obtain ⟨key, x⟩ := row
    rw [Remarked, List.forall_mem_cons] at h
    rw [rowsSignal]
    cases Table.find? key ys with
    | none => rfl
    | some y => simp [Argument.signals, h.1.signals y.description, ih h.2]

theorem Field.Plain.signals_eq_false (ha : a.Plain arguments) (hargs : Remarked arguments)
    (b : Field) : a.signals b = false := by
  have hrows : rowsSignal Argument.signals Argument.same a.arguments b.arguments = false := by
    rcases ha.arguments with h | h
    · rw [h]
      rfl
    · rw [h]
      exact argumentsSignal_eq_false hargs _
  simp [signals, ha.description.signals b.description, tablesSignal, hrows]

/-- The name of a type is a text, its remarks are texts or missing, and so are the values that it
lists. -/
structure TypeDescriptor.Plain (arguments : List (Value × Argument))
    (t : TypeDescriptor) : Prop where
  name : ∃ n, t.name = .text n
  description : t.description.IsRemark
  values : ∀ v ∈ t.values, v.IsRemark
  keys : TextKeyed t.fields
  fields : ∀ row ∈ t.fields, row.2.Plain arguments

/-- The exported rows of fields. -/
def exportedRows (fields : List (Value × Field)) : List (Value × Value) :=
  fields.map fun row => (row.1, row.2.exported)

/-- What is exported of two types has the same text if the parts have. -/
theorem TypeDescriptor.write_exported_congr (hname : t.name = u.name)
    (hcat : t.category = u.category) (hdesc : t.description = u.description)
    (hvalues : t.values = u.values) (hkind : t.scalarKind = u.scalarKind)
    (hmembers : t.members = u.members) (hinput : t.input = u.input)
    (hfields :
      Json.write .canonical (.mapping (exportedRows t.fields)) =
        Json.write .canonical (.mapping (exportedRows u.fields))) :
    Json.write .canonical t.exported = Json.write .canonical u.exported := by
  rw [exportedRows, exportedRows] at hfields
  rw [exported, exported, hname, hcat, hdesc, hvalues, hkind, hmembers, hinput]
  cases u.category with
  | enum => rfl
  | union => rfl
  | object =>
    rw [Json.write_mapping, Json.write_mapping]
    simp only [List.cons_append, List.nil_append, List.map_cons, List.map_nil,
      Json.entryText, hfields]

theorem matches_exportedRows {xs ys : List (Value × Field)} (hx : TextKeyed xs)
    (hfx : ∀ row ∈ xs, row.2.Plain arguments) (hfy : ∀ row ∈ ys, row.2.Plain arguments)
    (h : ∀ x ∈ xs, ∃ y ∈ ys, relatedRow Field.same x y = true) :
    Json.Matches (exportedRows xs) (exportedRows ys) := by
  intro row hrow
  obtain ⟨x, hin, rfl⟩ := List.mem_map.mp hrow
  obtain ⟨y, hy, hrel⟩ := h x hin
  obtain ⟨n, hn⟩ := hx.text x hin
  rw [relatedRow, Bool.and_eq_true, hn] at hrel
  refine ⟨_, List.mem_map_of_mem hy, ?_, ?_⟩
  · rw [hn]
    exact Value.text_same_iff.mp hrel.1
  · rw [Field.exported_eq_of_same (hfx x hin) (hfy y hy) hrel.2]

theorem TypeDescriptor.write_exported_eq_of_same (ht : t.Plain arguments) (hu : u.Plain arguments)
    (h : t.same u = true) :
    Json.write .canonical t.exported = Json.write .canonical u.exported := by
  obtain ⟨hname, hcat, hdesc, hfields, hvalues, hkind, hmembers, hinput⟩ := same_iff.mp h
  have hname' : t.name = u.name := by
    obtain ⟨n, hn⟩ := ht.name
    rw [hn] at hname ⊢
    exact (Value.text_same_iff.mp hname).symm
  have hcover := sameRows_iff.mp hfields
  have hback : ∀ y ∈ u.fields, ∃ x ∈ t.fields, relatedRow Field.same y x = true := by
    intro y hy
    obtain ⟨x, hx, hrel⟩ := hcover.2 y hy
    rw [relatedRow, Bool.and_eq_true] at hrel
    refine ⟨x, hx, ?_⟩
    rw [relatedRow, Bool.and_eq_true]
    exact ⟨BEq.symm hrel.1, Field.same_symm hrel.2⟩
  refine write_exported_congr hname' hcat (ht.description.eq_of_same hdesc)
    (Value.IsRemark.eq_of_sameItems ht.values hvalues) hkind hmembers hinput ?_
  exact Json.write_mapping_eq (ht.keys.map fun row => row.2.exported)
    (hu.keys.map fun row => row.2.exported)
    (matches_exportedRows ht.keys ht.fields hu.fields hcover.1)
    (matches_exportedRows hu.keys hu.fields ht.fields hback)

theorem TypeDescriptor.Plain.signals_eq_false (ht : t.Plain arguments) (hargs : Remarked arguments)
    (u : TypeDescriptor) : t.signals u = false := by
  have hrows : ∀ {xs : List (Value × Field)}, (∀ row ∈ xs, row.2.Plain arguments) →
      rowsSignal Field.signals Field.same xs u.fields = false := by
    intro xs hx
    induction xs with
    | nil => rfl
    | cons row xs ih =>
      obtain ⟨key, x⟩ := row
      rw [List.forall_mem_cons] at hx
      rw [rowsSignal]
      cases Table.find? key u.fields with
      | none => rfl
      | some y => simp [Field.Plain.signals_eq_false hx.1 hargs y, ih hx.2]
  simp [signals, ht.description.signals u.description, tablesSignal, hrows ht.fields,
    Value.IsRemark.itemsSignal ht.values u.values]

theorem Field.Plain.exportable (ha : a.Plain arguments) (hkeys : TextKeyed arguments)
    (hargs : Remarked arguments) : a.Exportable ∧ a.Legible := by
  have hchoice : TextKeyed a.arguments ∧ Remarked a.arguments := by
    rcases ha.arguments with h | h
    · rw [h]
      exact ⟨.nil, by simp [Remarked]⟩
    · rw [h]
      exact ⟨hkeys, hargs⟩
  constructor
  · exact ⟨ha.description.writable, hchoice.1, fun row hrow => (hchoice.2 row hrow).writable⟩
  · exact ⟨ha.description.isShowable, fun row hrow => (hchoice.2 row hrow).isShowable⟩

theorem TypeDescriptor.Plain.exportable (ht : t.Plain arguments) (hkeys : TextKeyed arguments)
    (hargs : Remarked arguments) : t.Exportable ∧ t.Legible := by
  have hfields : ∀ row ∈ t.fields, row.2.Exportable ∧ row.2.Legible :=
    fun row hrow => (ht.fields row hrow).exportable hkeys hargs
  constructor
  · exact ⟨ht.name, ht.description.writable, fun v hv => (ht.values v hv).writable, ht.keys,
      fun row hrow => (hfields row hrow).1⟩
  · exact ⟨ht.description.isShowable, fun v hv => (ht.values v hv).isShowable,
      fun row hrow => (hfields row hrow).2⟩

end ModelSchema
