import ModelSchema.Proofs.Schema.EmbedDepth
import ModelSchema.Proofs.Schema.PostOrder

/-!
# Objects made for structures

The objects that are made for a property are those of the structures in its tree that have
declarations inside; a structure without any stands for free-form values. A declaration inside need
not have a field, so an object may end up without one. Main statement: it does exactly if no
declaration right inside its structure has a field.
-/

namespace ModelSchema

variable {s : Surroundings} {o : Owner} {p : Property} {c : Compiled} {u : TypeDescriptor}
  {description : Value} {typeName : String}

theorem Property.scalarStanding_ne_object (p : Property) (declared : DeclaredType) :
    p.scalarStanding declared ≠ .object description := by
  unfold Property.scalarStanding
  cases p.standingKind? declared with
  | none => exact nofun
  | some kind =>
    dsimp only
    split <;> exact nofun

theorem Property.referenceStanding_ne_object (known : List String) (label : String) :
    Property.referenceStanding known label ≠ .object description := by
  unfold Property.referenceStanding
  split
  · split <;> exact nofun
  · split <;> exact nofun

theorem Property.standing_ne_object (p : Property) (known : List String) :
    p.standing known true ≠ .object description := by
  by_cases hd : p.deprecated = true
  · rw [standing_of_deprecated hd]
    exact nofun
  · have hkept : p.deprecated = false := by simpa using hd
    by_cases harray : p.type = .untypedArray
    · rw [standing_of_array hkept harray]
      exact nofun
    · rw [standing_of_item hkept harray]
      unfold itemStanding
      split
      · split
        · exact p.scalarStanding_ne_object _
        · exact nofun
      · split
        · exact p.scalarStanding_ne_object _
        · exact referenceStanding_ne_object known _
      · exact p.scalarStanding_ne_object _

namespace Standing

variable {standing : Standing} {fields : List (Value × Field)}

/-- Only what stands for an object has a type of that category, and the type has the given
fields. -/
theorem object_of_type? (h : standing.type? typeName fields = some u)
    (hu : u.category = .object) :
    (∃ description, standing = .object description) ∧ u.name = .text typeName ∧
      u.fields = fields := by
  cases standing with
  | leftOut | scalar _ | model _ => cases h
  | enumeration _ _ | union _ =>
    cases h
    cases hu
  | object description =>
    cases h
    exact ⟨⟨description, rfl⟩, rfl, rfl⟩

end Standing

namespace DeclarationTree

variable {t : DeclarationTree} {visit : List Value × DeclarationTree}

theorem Whole.of_visit (h : t.Whole) (hv : visit ∈ t.postorder) : visit.2.Whole := by
  induction h generalizing visit with
  | flat hflat =>
    rcases mem_postorder_node hv with ⟨_, hnone, -⟩ | rfl
    · cases hnone
    · exact .flat hflat
  | opened ho hr hrows hall ih =>
    rcases mem_postorder_node hv with ⟨t, ht, inner, hinner, rfl⟩ | rfl
    · have hinside := ih t ht hinner
      exact hinside
    · exact .opened ho hr hrows hall

theorem Whole.standing_object_iff (h : t.Whole) :
    (∃ description, t.standing s = .object description) ↔ t.inside ≠ [] := by
  constructor
  · rintro ⟨description, hobject⟩ hnone
    unfold standing at hobject
    rw [hnone] at hobject
    exact t.declaration.standing_ne_object s.knownModels hobject
  · intro hne
    cases h with
    | flat _ => exact absurd rfl hne
    | @opened p raw name hidden rows inside ho _ _ _ =>
      have hsome : inside ≠ [] := hne
      have hempty : inside.isEmpty = false := by simpa using hsome
      refine ⟨name, ?_⟩
      change p.standing s.knownModels inside.isEmpty = _
      rw [ho.standing_eq, hempty, if_neg Bool.false_ne_true]

theorem fieldsInside_ne_nil_iff :
    t.fieldsInside s typeName ≠ [] ↔ ∃ child ∈ t.inside, ∃ f,
      child.field? s { name := typeName, hidden := t.declaration.hiddenInside } = some f := by
  constructor
  · intro h
    obtain ⟨row, hrow⟩ := List.exists_mem_of_ne_nil _ h
    obtain ⟨child, hchild, hfield⟩ := List.mem_filterMap.mp hrow
    obtain ⟨f, hf, -⟩ := Option.map_eq_some_iff.mp hfield
    exact ⟨child, hchild, f, hf⟩
  · rintro ⟨child, hchild, f, hf⟩
    apply List.ne_nil_of_mem (a := (f.name, f))
    exact List.mem_filterMap.mpr ⟨child, hchild, by rw [hf]; rfl⟩

theorem Yields.object_of_inside (hy : t.Yields s o c) (hw : t.Whole) (hv : visit ∈ t.postorder)
    (hne : visit.2.inside ≠ []) :
    ∃ u ∈ c.types, u.category = .object ∧ u.name = .text (pathName o.name visit.1) ∧
      u.fields = visit.2.fieldsInside s (pathName o.name visit.1) := by
  obtain ⟨description, hobject⟩ := (hw.of_visit hv).standing_object_iff.mpr hne
  have htype : visit.2.type? s (pathName o.name visit.1) =
      (Standing.object description).type? (pathName o.name visit.1)
        (visit.2.fieldsInside s (pathName o.name visit.1)) := by
    unfold type?
    rw [hobject]
  rw [hy.types_eq]
  exact ⟨_, List.mem_filterMap.mpr ⟨visit, hv, htype⟩, rfl, rfl, rfl⟩

/-- Each object that is made is that of a structure with something inside. -/
theorem Yields.inside_of_object (hy : t.Yields s o c) (hw : t.Whole) (hu : u ∈ c.types)
    (hobject : u.category = .object) :
    ∃ visit ∈ t.postorder, visit.2.inside ≠ [] ∧ u.name = .text (pathName o.name visit.1) ∧
      u.fields = visit.2.fieldsInside s (pathName o.name visit.1) := by
  rw [hy.types_eq] at hu
  obtain ⟨visit, hv, htype⟩ := List.mem_filterMap.mp hu
  obtain ⟨hstands, hname, hfields⟩ := Standing.object_of_type? htype hobject
  exact ⟨visit, hv, (hw.of_visit hv).standing_object_iff.mp hstands, hname, hfields⟩

end DeclarationTree

/-- The objects that are made for a property that compiles all have fields exactly if each structure
in its tree that has declarations inside has one with a field among them. A structure without
declarations inside stands for free-form values, whatever it is inside of. -/
theorem compileProperty_objects_have_fields (h : (compileProperty s o p).outcome = .ok c) :
    ∃! t : DeclarationTree, (t.declaration = p ∧ t.Whole) ∧ t.Yields s o c ∧
      ((∀ u ∈ c.types, u.category = .object → u.fields ≠ []) ↔
        ∀ visit ∈ t.postorder, visit.2.inside ≠ [] → ∃ child ∈ visit.2.inside, ∃ f,
          child.field? s
            { name := pathName o.name visit.1, hidden := visit.2.declaration.hiddenInside } =
              some f) ∧
      ∀ visit ∈ t.postorder, ∀ raw name hidden, visit.2.declaration.Opens raw name hidden →
        visit.2.inside = [] → visit.2.standing s = .scalar .json := by
  obtain ⟨t, rfl, hwhole, hyields⟩ := compileWithin_yields h
  refine ⟨t, ⟨⟨rfl, hwhole⟩, hyields, ⟨?_, ?_⟩, ?_⟩, ?_⟩
  · intro hfields visit hv hne
    obtain ⟨u, hu, hobject, -, heq⟩ := hyields.object_of_inside hwhole hv hne
    apply DeclarationTree.fieldsInside_ne_nil_iff.mp
    rw [← heq]
    exact hfields u hu hobject
  · intro hinside u hu hobject
    obtain ⟨visit, hv, hne, -, heq⟩ := hyields.inside_of_object hwhole hu hobject
    rw [heq]
    exact DeclarationTree.fieldsInside_ne_nil_iff.mpr (hinside visit hv hne)
  · intro visit _ raw name hidden ho hnone
    unfold DeclarationTree.standing
    rw [hnone, ho.standing_eq]
    rfl
  · rintro t' ⟨⟨hp', hwhole'⟩, -⟩
    exact hwhole'.unique hwhole hp'

theorem compileProperty_objects_have_fields_address :
    let order : Owner := { name := "Order" }
    ∃ c, (compileProperty {} order addressProperty).outcome = .ok c ∧
      (c.types.map fun u => u.fields.length) = [1, 1] ∧
      ∃ t : DeclarationTree, t.declaration = addressProperty ∧ t.Whole ∧
        ∀ visit ∈ t.postorder, visit.2.inside ≠ [] → ∃ child ∈ visit.2.inside, ∃ f,
          child.field? {}
            { name := pathName "Order" visit.1, hidden := visit.2.declaration.hiddenInside } =
              some f := by
  intro order
  have hcompiles : (compileProperty {} order addressProperty).outcome.isOk = true := by
    decide +kernel
  obtain ⟨c, hc⟩ := exists_of_isOk hcompiles
  have hlengths : (c.types.map fun u => u.fields.length) = [1, 1] := by
    have hmade : ((Compiled.ofOutcome (compileProperty {} order addressProperty).outcome).types.map
        fun u => u.fields.length) = [1, 1] := by
      decide +kernel
    rw [hc] at hmade
    exact hmade
  have hfields : ∀ u ∈ c.types, u.category = .object → u.fields ≠ [] := by
    intro u hu _ hnone
    have hzero : u.fields.length ∈ [1, 1] := hlengths ▸ List.mem_map_of_mem hu
    rw [hnone] at hzero
    simp at hzero
  obtain ⟨t, ⟨⟨hp, hwhole⟩, -, hiff, -⟩, -⟩ := compileProperty_objects_have_fields hc
  exact ⟨c, hc, hlengths, t, hp, hwhole, hiff.mp hfields⟩

/-- An address with nothing but a street, which is no longer in use. -/
def outdatedAddress : Property :=
  { name := .text "address"
    type := .embedded
      (.mapping
        [(.text "street",
           .mapping [(.text "type", .type .text), (.text "deprecated", .bool true)])])
      .null [] }

/-- The declarations inside a structure count even if none of them has a field: then the structure
has an object all the same, without fields. -/
theorem object_without_fields :
    ∃ c, (compileProperty {} { name := "Order" } outdatedAddress).outcome = .ok c ∧
      ∃ u ∈ c.types, u.category = .object ∧ u.fields = [] := by
  have hcompiles : (compileProperty {} { name := "Order" } outdatedAddress).outcome.isOk =
      true := by
    decide +kernel
  obtain ⟨c, hc⟩ := exists_of_isOk hcompiles
  have hmade : ((Compiled.ofOutcome
      (compileProperty {} { name := "Order" } outdatedAddress).outcome).types.any fun u =>
        u.category == .object && u.fields.isEmpty) = true := by
    decide +kernel
  rw [hc] at hmade
  obtain ⟨u, hu, hempty⟩ := List.any_eq_true.mp hmade
  rw [Bool.and_eq_true, beq_iff_eq, List.isEmpty_iff] at hempty
  exact ⟨c, hc, u, hu, hempty⟩

end ModelSchema
