import ModelSchema.Proofs.Schema.Consistency

/-!
# Where types come from

The types made for properties are named after the type that owns the property and after the
property. Such names are not told apart by how they are put together, but a registry that has been
built holds each planned type under its name, so no two different ones share a name. Main
statements: nothing that was made is lost, and each registered name that is neither that of the root
type nor that of a model belongs to a field of a registered object type.
-/

namespace ModelSchema

variable {m : Model} {s : Surroundings} {o : Owner} {p : Property} {c : Compiled} {g : Generator}
  {r : Registry}
  {t owner : TypeDescriptor} {types : List TypeDescriptor} {fields : List (Value × Field)}

/-- A type is named after a declared property of an object type, whose field for the property needs
the type, unless the field is that of a relation. -/
def TypeDescriptor.ComesFrom (m : Model) (t owner : TypeDescriptor) : Prop :=
  ∃ (n : String) (q : Property), m.Declares n q ∧ t.name = .text (derivedName n q.name) ∧
    owner.name = .text n ∧
    owner.category = .object ∧ ∃ f, Table.find? q.name owner.fields = some f ∧
      (f.nestedTypeName = some (derivedName n q.name) ∨ f.isRelation = true)

/-- A type that is made for a property is named after it and needed by its field, or comes from
another type made for it. -/
theorem Compiles.origin (h : Compiles s o p c) (hp : m.Declares o.name p) (hw : m.WellNamed)
    (ht : t ∈ c.types) :
    (t.name = .text (derivedName o.name p.name) ∧ ∃ f, c.field = some f ∧
      f.nestedTypeName = some (derivedName o.name p.name)) ∨
      ∃ owner ∈ c.types, t.ComesFrom m owner := by
  induction h generalizing t with
  | deprecated _ | unresolved _ | scalar _ _ | reference _ _ _ => simp at ht
  | enumeration _ _ _ | union _ _ _ =>
    left
    rw [List.mem_singleton.mp ht]
    exact ⟨rfl, _, rfl, rfl⟩
  | @nested o p raw name hidden rows result _ _ hitem hrows _ hall ih =>
    rcases List.mem_append.mp ht with ht | ht
    · right
      obtain ⟨q, hq, hin⟩ := mem_madeTypes.mp ht
      obtain ⟨row, hrow, rfl⟩ := List.mem_map.mp hq
      have hdecl : m.Declares (o.inside p.name hidden).name row.2 := .inside hp hitem hrows hrow
      rcases ih row hrow hdecl hin with ⟨hname, f, hf, hnested⟩ | ⟨owner, ho, hcome⟩
      · refine ⟨_, List.mem_concat_self, _, row.2, hdecl, hname, rfl, rfl, f, ?_, .inl hnested⟩
        refine find?_fieldRows (hw.inside hp hitem hrows) (fun q hq f hf => ?_) hq hf
        obtain ⟨source, hs, rfl⟩ := List.mem_map.mp hq
        exact (hall source hs).field_name hf
      · exact ⟨owner, List.mem_append_left _ (mem_madeTypes.mpr ⟨_, hq, ho⟩), hcome⟩
    · left
      rw [List.mem_singleton.mp ht]
      exact ⟨rfl, _, rfl, rfl⟩

namespace Generator

theorem draft_origin (h : (g.draft m).outcome = .ok (fields, types)) (hw : m.WellNamed)
    (ht : t ∈ types) : ∃ owner ∈ types ++ [m.objectType fields], t.ComesFrom m owner := by
  obtain ⟨result, hall, rfl, rfl⟩ := compiles_of_draft h
  obtain ⟨q, hq, hin⟩ := mem_madeTypes.mp ht
  rcases (hall q hq).origin (.own hq) hw hin with ⟨hname, f, hf, hnested⟩ | ⟨owner, ho, hcome⟩
  · have hnames : ∀ q ∈ m.properties.map (·.2), ∀ f, (result q).field = some f → f.name = q.name :=
      fun q hq f hf => (hall q hq).field_name hf
    have hrow : (f.name, f) ∈ fieldRows result (m.properties.map (·.2)) :=
      mem_fieldRows.mpr ⟨q, hq, hf, rfl⟩
    have hown := Table.find?_ofRows_of_mem (distinct_fieldRows hw.own hnames) hrow
    rw [hnames q hq f hf] at hown
    refine ⟨_, List.mem_concat_self, m.name, q, .own hq, hname, rfl, rfl, ?_⟩
    rw [Model.objectType, Table.find?_merge]
    cases hrel : Table.find? q.name (relationRows g.settings (g.exposedRelations m)).reverse with
    | none => exact ⟨f, by simpa using hown, .inl hnested⟩
    | some f' =>
      obtain ⟨row, hr, -, rfl⟩ := Table.mem_of_find? hrel
      obtain ⟨relation, -, rfl⟩ := List.mem_map.mp (List.mem_reverse.mp hr)
      exact ⟨_, Option.some_or, .inr rfl⟩
  · exact ⟨owner, List.mem_append_left _ (mem_madeTypes.mpr ⟨q, hq, ho⟩), hcome⟩

end Generator

namespace Registry

/-- A name stands for the type of a field: of an object type that the registry has, whose property
the field is made for, unless a relation has taken its place. -/
def NamesField (r : Registry) (m : Model) (name : Value) : Prop :=
  ∃ (n : String) (q : Property) (owner : TypeDescriptor) (f : Field),
    m.Declares n q ∧ name = .text (derivedName n q.name) ∧ r.find? (.text n) = some owner ∧
      owner.category = .object ∧ Table.find? q.name owner.fields = some f ∧
        (f.nestedTypeName = some (derivedName n q.name) ∨ f.isRelation = true)

theorem NamesField.of_comesFrom {plan : List TypeDescriptor} (hr : r.Realizes plan)
    (hk : ∀ u ∈ plan, TextKeyed u.fields) (ho : owner ∈ plan) (h : t.ComesFrom m owner) :
    r.NamesField m t.name := by
  obtain ⟨n, q, hdecl, hname, howner, hcat, f, hf, hneeds⟩ := h
  obtain ⟨e, he, hs⟩ := hr.holds owner ho
  have hcat' : e.category = .object := by
    obtain ⟨-, hc, -⟩ := TypeDescriptor.same_iff.mp hs
    rw [hc, hcat]
  -- what is registered is itself planned, so its fields are told apart by their names
  have hkeyed : TextKeyed e.fields := by
    obtain ⟨row, hrow, -, rfl⟩ := Table.mem_of_find? he
    obtain ⟨u, hu, rfl⟩ := hr.only row hrow
    exact hk u hu
  obtain ⟨⟨key, _⟩, hin, hkey, rfl⟩ := Table.mem_of_find? hf
  obtain ⟨other, hother, hsame, hfield⟩ := TypeDescriptor.same_fields hs hin
  have hfind : Table.find? q.name e.fields = some other.2 := by
    rw [← Table.find?_congr (BEq.trans hsame hkey)]
    exact Table.find?_of_mem hkeyed.distinct hother
  obtain ⟨-, -, -, -, -, hrel, -, -, -, -, -, hnested⟩ :=
    Field.agrees_iff.mp (Field.same_iff.mp hfield).1
  rw [howner] at he
  refine ⟨n, q, e, other.2, hdecl, hname, he, hcat', hfind, ?_⟩
  rw [hrel, hnested]
  exact hneeds

end Registry

/-- In a registry that has been built no name stands for two different types. The root type is kept
as it is and shares its name with no model; each type that is made for the first model of a name is
held under its name, as is the type of the model; and there is nothing under any other name. -/
theorem buildRegistry_settles {catalogue : LookupCatalogue} {sources : List ModelSource}
    {source : SettingsSource} {lookup : Option RelationLookup}
    (h : (buildRegistry catalogue sources source lookup).outcome = .ok r)
    (hw : ∀ models, (loadModels sources).outcome = .ok models → ∀ m ∈ models, m.WellNamed) :
    ∃ models g, (loadModels sources).outcome = .ok models ∧
        Generator.make catalogue models source lookup = .ok g ∧
        r.find? g.settings.rootTypeName = some (rootType models g.settings) ∧
        (∀ m ∈ models, (g.settings.rootTypeName == .text m.name) = false) ∧
        (∀ m ∈ g.firstModels, ∃ fields types, (g.draft m).outcome = .ok (fields, types) ∧
          ∀ t ∈ types ++ [m.objectType fields], r.Holds t) ∧
        (∀ m ∈ g.firstModels, ∀ m' ∈ g.firstModels, ∀ t ∈ g.typesOf m, ∀ t' ∈ g.typesOf m',
          (t.name == t'.name) = true → t.same t' = true) ∧
        ∀ row ∈ r.types, row.1 = g.settings.rootTypeName ∨
          (∃ m ∈ models, row.1 = .text m.name) ∨ ∃ m ∈ models, r.NamesField m row.1 := by
  obtain ⟨models, g, hm, hg, hd, hr, hroot⟩ := buildRegistry_realizes h
  obtain ⟨-, rfl, -⟩ := Generator.make_ok hg
  have hwell := hw g.models hm
  have hkeyed : ∀ u ∈ g.plan, TextKeyed u.fields :=
    fun u hu => Generator.textKeyed_of_mem_plan hwell hu
  have hc := Generator.Consistent.of_realizes hr
  refine ⟨g.models, g, hm, hg, hroot, ?_, ?_, hc.agree, ?_⟩
  · intro m hin
    obtain ⟨first, hf, hname⟩ := Generator.exists_newModel hin List.not_mem_nil
    obtain ⟨⟨fields, types⟩, hdraft⟩ := hd first hf
    have hown : first.objectType fields ∈ g.typesOf first := by
      rw [Generator.typesOf_eq hdraft]
      exact List.mem_concat_self
    rw [← hname]
    exact hc.root first hf (first.objectType fields) hown
  · intro m hf
    obtain ⟨⟨fields, types⟩, hdraft⟩ := hd m hf
    refine ⟨fields, types, hdraft, ?_⟩
    intro t ht
    exact hr.holds t (Generator.mem_plan_of_draft hf hdraft ht)
  · intro row hrow
    obtain ⟨t, ht, rfl⟩ := hr.only row hrow
    rcases List.mem_cons.mp ht with rfl | ht
    · exact .inl rfl
    · obtain ⟨first, hf, ht⟩ := List.mem_flatMap.mp ht
      have hin : first ∈ g.models := (Generator.mem_of_mem_newModels hf).1
      obtain ⟨fields, types, hdraft, heq⟩ := Generator.exists_draft_of_mem_typesOf ht
      rw [heq] at ht
      rcases List.mem_append.mp ht with ht | ht
      · right; right
        obtain ⟨owner, ho, hcome⟩ := Generator.draft_origin hdraft (hwell first hin) ht
        exact ⟨first, hin, .of_comesFrom hr hkeyed (Generator.mem_plan_of_draft hf hdraft ho) hcome⟩
      · rw [List.mem_singleton.mp ht]
        exact .inr (.inl ⟨first, hin, rfl⟩)

theorem buildRegistry_settles_bookkeeping :
    (∀ models, (loadModels bookkeeping).outcome = .ok models → ∀ m ∈ models, m.WellNamed) ∧
      ∃ r, (buildRegistry [] bookkeeping (.given {}) none).outcome = .ok r ∧
        r.find? (.text "Viewer") = some (rootType [accountModel, ledgerModel] {}) ∧
        ∀ row ∈ r.types, row.1 = .text "Viewer" ∨
          (∃ m ∈ [accountModel, ledgerModel], row.1 = .text m.name) ∨
          ∃ m ∈ [accountModel, ledgerModel], r.NamesField m row.1 := by
  have hnamed : ∀ models, (loadModels bookkeeping).outcome = .ok models →
      ∀ m ∈ models, m.WellNamed := by
    rintro _ ⟨⟩ m hm
    simp only [List.mem_cons, List.not_mem_nil, or_false] at hm
    rcases hm with rfl | rfl
    · exact accountModel_plain.toWellNamed
    · exact ledgerModel_plain.toWellNamed
  refine ⟨hnamed, ?_⟩
  obtain ⟨r, h⟩ := exists_bookkeepingRegistry
  obtain ⟨_, _, ⟨⟩, ⟨⟩, hroot, -, -, -, hnames⟩ := buildRegistry_settles h hnamed
  exact ⟨r, h, hroot, hnames⟩

end ModelSchema
