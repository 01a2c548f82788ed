import ModelSchema.Proofs.Json.Alike
import ModelSchema.Schema.Registry

/-!
# Registries that can be exported

A registry has a canonical text, and so a fingerprint, if types, fields and arguments are named by
texts, each name once, all remarks and listed values are writable (missing, texts, truth values,
integers, or lists of such), and no integer among them is too long.
-/

namespace ModelSchema

theorem writable_ofText? (name : Option String) : Json.Writable (.ofText? name) := by
  cases name with
  | none => exact .null
  | some n => exact .text n

theorem isShowable_ofText? (name : Option String) : (Value.ofText? name).isShowable = true := by
  cases name <;> rfl

theorem Value.IsRemark.writable {v : Value} (h : v.IsRemark) : Json.Writable v := by
  rcases h with rfl | ⟨n, rfl⟩
  · exact .null
  · exact .text n

theorem Value.IsRemark.isShowable {v : Value} (h : v.IsRemark) : v.isShowable = true := by
  rcases h with rfl | ⟨n, rfl⟩ <;> rfl

theorem TextKeyed.writable {α : Type} {rows : List (Value × α)} {f : α → Value}
    (h : TextKeyed rows) (hf : ∀ row ∈ rows, Json.Writable (f row.2)) :
    Json.Writable (.mapping (rows.map fun row => (row.1, f row.2))) := by
  refine .mapping (h.map fun row => f row.2) ?_
  intro row hrow
  obtain ⟨source, hsource, rfl⟩ := List.mem_map.mp hrow
  exact hf source hsource

theorem TextKeyed.isShowable {α : Type} {rows : List (Value × α)} {f : α → Value}
    (h : TextKeyed rows) (hf : ∀ row ∈ rows, (f row.2).isShowable = true) :
    (Value.mapping (rows.map fun row => (row.1, f row.2))).isShowable = true := by
  refine Value.entriesShowable_iff.mpr fun entry hentry => ?_
  obtain ⟨row, hrow, rfl⟩ := List.mem_map.mp hentry
  obtain ⟨n, hn⟩ := h.text row hrow
  exact ⟨by rw [hn]; rfl, hf row hrow⟩

theorem Argument.writable {x : Argument} (h : Json.Writable x.description) :
    Json.Writable x.exported := by
  refine .mapping ⟨by simp, by simp [Table.Distinct]⟩ ?_
  simp [h, Json.Writable.text]

/-- The arguments of a field are named by texts, and all remarks are writable. -/
structure Field.Exportable (f : Field) : Prop where
  description : Json.Writable f.description
  arguments : TextKeyed f.arguments
  remarks : ∀ row ∈ f.arguments, Json.Writable row.2.description

theorem Field.Exportable.writable {f : Field} (h : f.Exportable) : Json.Writable f.exported := by
  have hmapped : Json.Writable (.mapping (f.arguments.map fun row => (row.1, row.2.exported))) :=
    h.arguments.writable fun row hrow => Argument.writable (h.remarks row hrow)
  refine .mapping ⟨by simp, by simp [Table.Distinct]⟩ ?_
  simp [hmapped, h.description, Json.Writable.bool, writable_ofText?]

/-- No integer among the remarks is too long. -/
structure Field.Legible (f : Field) : Prop where
  description : f.description.isShowable = true
  remarks : ∀ row ∈ f.arguments, row.2.description.isShowable = true

theorem Field.Exportable.isShowable {f : Field} (h : f.Exportable) (hl : f.Legible) :
    f.exported.isShowable = true := by
  have harguments :
      (Value.mapping (f.arguments.map fun row => (row.1, row.2.exported))).isShowable = true := by
    refine h.arguments.isShowable fun row hrow => ?_
    simp [Argument.exported, Value.isShowable, Value.entriesShowable, hl.remarks row hrow]
  simp only [Value.isShowable] at harguments
  simp [exported, Value.isShowable, Value.entriesShowable, isShowable_ofText?, hl.description,
    harguments]

/-- A type and its fields are named by texts, and all remarks and listed values are writable. -/
structure TypeDescriptor.Exportable (t : TypeDescriptor) : Prop where
  name : ∃ n, t.name = .text n
  description : Json.Writable t.description
  values : ∀ v ∈ t.values, Json.Writable v
  keys : TextKeyed t.fields
  fields : ∀ row ∈ t.fields, row.2.Exportable

theorem TypeDescriptor.Exportable.writable {t : TypeDescriptor} (h : t.Exportable) :
    Json.Writable t.exported := by
  have hfields : Json.Writable (.mapping (t.fields.map fun row => (row.1, row.2.exported))) :=
    h.keys.writable fun row hrow => (h.fields row hrow).writable
  have hvalues : Json.Writable (.list t.values) := .list h.values
  have hmembers : Json.Writable (.list (t.members.map .text)) := by
    refine .list fun v hv => ?_
    obtain ⟨n, -, rfl⟩ := List.mem_map.mp hv
    exact .text n
  obtain ⟨n, hn⟩ := h.name
  rw [exported, hn]
  cases t.category with
  | object =>
    refine .mapping ⟨by simp, by simp [Table.Distinct]⟩ ?_
    simp [hfields, h.description, Json.Writable.text, Json.Writable.bool]
  | enum =>
    refine .mapping ⟨by simp, by simp [Table.Distinct]⟩ ?_
    simp [hvalues, h.description, Json.Writable.text, writable_ofText?]
  | union =>
    refine .mapping ⟨by simp, by simp [Table.Distinct]⟩ ?_
    simp [hmembers, h.description, Json.Writable.text]

/-- No integer among the remarks and the listed values is too long. -/
structure TypeDescriptor.Legible (t : TypeDescriptor) : Prop where
  description : t.description.isShowable = true
  values : ∀ v ∈ t.values, v.isShowable = true
  fields : ∀ row ∈ t.fields, row.2.Legible

theorem TypeDescriptor.Exportable.isShowable {t : TypeDescriptor} (h : t.Exportable)
    (hl : t.Legible) : t.exported.isShowable = true := by
  have hfields :
      (Value.mapping (t.fields.map fun row => (row.1, row.2.exported))).isShowable = true :=
    h.keys.isShowable fun row hrow => (h.fields row hrow).isShowable (hl.fields row hrow)
  have hmembers : Value.itemsShowable (t.members.map .text) = true := by
    refine Value.itemsShowable_iff.mpr fun v hv => ?_
    obtain ⟨n, -, rfl⟩ := List.mem_map.mp hv
    rfl
  have hvalues := Value.itemsShowable_iff.mpr hl.values
  obtain ⟨n, hn⟩ := h.name
  simp only [Value.isShowable] at hfields
  cases hcategory : t.category
  all_goals
    simp [exported, hcategory, hn, Value.isShowable, Value.entriesShowable, isShowable_ofText?,
      hl.description, hfields, hvalues, hmembers]

namespace Registry

variable {r : Registry}

/-- The types of a registry can be exported and are registered under texts. -/
structure Exportable (r : Registry) : Prop where
  keys : TextKeyed r.types
  types : ∀ row ∈ r.types, row.2.Exportable

theorem Exportable.writable (h : r.Exportable) : Json.Writable r.exported :=
  h.keys.writable fun row hrow => (h.types row hrow).writable

/-- No integer in the registry is too long to be written. -/
def Legible (r : Registry) : Prop := ∀ row ∈ r.types, row.2.Legible

theorem Exportable.exists_canonicalText (h : r.Exportable) (hl : r.Legible) :
    ∃ cs, r.canonicalText = .ok cs := by
  have hs : r.exported.isShowable = true :=
    h.keys.isShowable fun row hrow => (h.types row hrow).isShowable (hl row hrow)
  obtain ⟨cs, hcs⟩ := h.writable.exists_text hs
  exact ⟨cs, by rw [canonicalText, Json.canonicalText, hcs]⟩

theorem Exportable.exists_fingerprint (h : r.Exportable) (hl : r.Legible) :
    ∃ text, r.computeFingerprint = .ok text := by
  obtain ⟨cs, hcs⟩ := h.exists_canonicalText hl
  exact ⟨_, by rw [computeFingerprint, hcs]; rfl⟩

end Registry

end ModelSchema
