import ModelSchema.Proofs.Schema.Consistency

/-!
# References

The fields of object types and the members of unions refer to types by name. Each compiled property
refers to a scalar kind, to a type that is made with it, or to a known model; each exposed relation
and each listing refers to a model of the run. So the plan of a build refers to nothing that is not
planned, and since a registry has under the name of each planned type one that is the same, every
reference in a finished registry leads to a type that is there.
-/

namespace ModelSchema

variable {known : List String} {types : List TypeDescriptor} {r : Registry} {g : Generator}
  {m : Model}

/-- A field refers to a scalar kind, to one of the given types, which is then made for it, or to a
known model. -/
inductive Field.PointsTo (known : List String) (types : List TypeDescriptor) (f : Field) : Prop
  | scalar (kind : ScalarKind) : f.isScalar = true → f.isRelation = false →
      f.scalarKind = some kind →
    f.typeName = some kind.name → f.nestedTypeName = none → PointsTo known types f
  | derived (t : TypeDescriptor) (n : String) : f.isScalar = false → f.isRelation = false →
      t ∈ types →
    t.name = .text n → f.typeName = some n → f.nestedTypeName = some n → PointsTo known types f
  | model (n : String) : f.isScalar = false → n ∈ known → f.typeName = some n →
      f.nestedTypeName = none →
    PointsTo known types f

/-- All that a type refers to is known or among the given types. -/
structure TypeDescriptor.Closed (known : List String) (types : List TypeDescriptor)
    (t : TypeDescriptor) : Prop where
  fields : ∀ row ∈ t.fields, row.2.PointsTo known types
  members : ∀ member ∈ t.members, (∃ kind : ScalarKind, member = kind.name) ∨ member ∈ known

theorem Field.PointsTo.mono {more : List TypeDescriptor} {f : Field} (h : f.PointsTo known types)
    (hs : types ⊆ more) : f.PointsTo known more := by
  cases h with
  | scalar kind h hr hk hn hd => exact .scalar kind h hr hk hn hd
  | derived t n h hr ht htn hn hd => exact .derived t n h hr (hs ht) htn hn hd
  | model n h hk hn hd => exact .model n h hk hn hd

theorem TypeDescriptor.Closed.mono {more : List TypeDescriptor} {t : TypeDescriptor}
    (h : t.Closed known types) (hs : types ⊆ more) : t.Closed known more :=
  ⟨fun row hr => (h.fields row hr).mono hs, h.members⟩

theorem mem_of_unionMembers {parts members : List String}
    (h : unionMembers known parts = .ok members) :
    ∀ member ∈ members, (∃ kind : ScalarKind, member = kind.name) ∨ member ∈ known := by
  have hall := unionMembers_ok_iff.mp h
  clear h
  induction hall with
  | nil => simp
  | cons hp _ ih =>
    refine List.forall_mem_cons.mpr ⟨?_, ih⟩
    unfold unionMember? at hp
    split at hp
    · rename_i kind _
      exact .inl ⟨kind, (Option.some.inj hp).symm⟩
    · split at hp
      · rename_i hk
        cases hp
        exact .inr (by simpa using hk)
      · cases hp

/-- The field of a compiled property and the types made for it refer to what is known or made with
them. -/
theorem Compiles.closed {s : Surroundings} {o : Owner} {p : Property} {c : Compiled}
    (h : Compiles s o p c) :
    (∀ f, c.field = some f → f.PointsTo s.knownModels c.types) ∧
      ∀ t ∈ c.types, t.Closed s.knownModels c.types := by
  induction h with
  | deprecated _ => simp
  | unresolved _ => simp
  | scalar kind _ =>
    refine ⟨?_, by simp⟩
    rintro f ⟨⟩
    exact .scalar kind rfl rfl rfl rfl rfl
  | @enumeration o p v values kind _ _ =>
    refine ⟨?_, ?_⟩
    · rintro f ⟨⟩
      exact .derived _ (derivedName o.name p.name) rfl rfl (List.mem_singleton_self _) rfl rfl rfl
    · intro t ht
      rw [List.mem_singleton.mp ht]
      exact ⟨by simp [TypeDescriptor.enumeration], by simp [TypeDescriptor.enumeration]⟩
  | @union o p members _ _ hm =>
    refine ⟨?_, ?_⟩
    · rintro f ⟨⟩
      exact .derived _ (derivedName o.name p.name) rfl rfl (List.mem_singleton_self _) rfl rfl rfl
    · intro t ht
      rw [List.mem_singleton.mp ht]
      refine ⟨by simp [TypeDescriptor.unionOf], fun member hin => mem_of_unionMembers hm member ?_⟩
      simpa [TypeDescriptor.unionOf] using hin
  | @reference o p name _ _ hk =>
    refine ⟨?_, by simp⟩
    rintro f ⟨⟩
    exact .model name rfl hk rfl rfl
  | @nested o p raw name hidden rows result _ _ _ _ _ _ ih =>
    have hmade : madeTypes result (rows.map (·.2)) ⊆ madeTypes result (rows.map (·.2)) ++
        [.anonymous o.name p.name name (fieldRows result (rows.map (·.2)))] :=
          List.subset_append_left _ _
    refine ⟨?_, ?_⟩
    · rintro f ⟨⟩
      exact .derived _ (derivedName o.name p.name) rfl rfl List.mem_concat_self rfl rfl rfl
    · intro t ht
      rcases List.mem_append.mp ht with ht | ht
      · obtain ⟨q, hq, hin⟩ := mem_madeTypes.mp ht
        obtain ⟨row, hr, rfl⟩ := List.mem_map.mp hq
        refine ((ih row hr).2 t hin).mono (List.Subset.trans (fun u hu => ?_) hmade)
        exact mem_madeTypes.mpr ⟨row.2, hq, hu⟩
      · rw [List.mem_singleton.mp ht]
        constructor
        · intro row hin
          obtain ⟨q, hq, hf, -⟩ := mem_fieldRows.mp hin
          obtain ⟨source, hs, rfl⟩ := List.mem_map.mp hq
          refine ((ih source hs).1 row.2 hf).mono (List.Subset.trans (fun u hu => ?_) hmade)
          exact mem_madeTypes.mpr ⟨source.2, hq, hu⟩
        · simp [TypeDescriptor.anonymous]

namespace Generator

theorem mem_models_of_exposes {relation : Relation} (h : g.exposes relation = true) :
    ∃ n, relation.target = some n ∧ n ∈ g.surroundings.knownModels := by
  unfold exposes at h
  split at h
  · cases h
  · rename_i target ht
    simp only [Bool.and_eq_true, model?, Option.any_eq_true] at h
    obtain ⟨-, found, hf, -⟩ := h
    refine ⟨target, ht, List.mem_map.mpr ⟨found, List.mem_of_find?_eq_some hf, ?_⟩⟩
    simpa using List.find?_some hf

theorem draft_closed {fields : List (Value × Field)}
    (h : (g.draft m).outcome = .ok (fields, types)) :
    (∀ row ∈ fields, row.2.PointsTo g.surroundings.knownModels types) ∧
      ∀ t ∈ types, t.Closed g.surroundings.knownModels types := by
  obtain ⟨result, hclosed, rfl, rfl⟩ := compiles_of_draft h
  constructor
  · intro row hrow
    rcases Table.snd_mem_merge hrow with ⟨old, ho, hs⟩ | ⟨new, hn, hs⟩
    · rcases Table.snd_mem_merge ho with ⟨_, hnil, -⟩ | ⟨made, hm, hs'⟩
      · cases hnil
      · obtain ⟨p, hp, hf, -⟩ := mem_fieldRows.mp hm
        rw [hs, hs']
        apply ((hclosed p hp).closed.1 made.2 hf).mono
        intro u hu
        exact mem_madeTypes.mpr ⟨p, hp, hu⟩
    · obtain ⟨relation, hin, rfl⟩ := List.mem_map.mp hn
      obtain ⟨n, ht, hk⟩ := mem_models_of_exposes (List.mem_filter.mp hin).2
      rw [hs]
      exact .model n rfl hk ht rfl
  · intro t ht
    obtain ⟨p, hp, hin⟩ := mem_madeTypes.mp ht
    apply ((hclosed p hp).closed.2 t hin).mono
    intro u hu
    exact mem_madeTypes.mpr ⟨p, hp, hu⟩

theorem rootType_closed (models : List Model) (settings : Settings) :
    (rootType models settings).Closed (models.map Model.name) [] := by
  constructor
  · intro row hr
    obtain ⟨listed, hm, he⟩ := mem_listings hr
    rw [he]
    exact .model listed.name rfl (List.mem_map_of_mem hm) rfl rfl
  · simp [rootType]

theorem plan_closed {t : TypeDescriptor} (h : t ∈ g.plan) :
    t.Closed g.surroundings.knownModels g.plan := by
  rcases List.mem_cons.mp h with rfl | h
  · exact (rootType_closed g.models g.settings).mono (List.nil_subset _)
  · obtain ⟨first, hf, ht⟩ := List.mem_flatMap.mp h
    have hsub : g.typesOf first ⊆ g.plan := fun u hu => mem_plan hf hu
    obtain ⟨fields, types, hd, heq⟩ := exists_draft_of_mem_typesOf ht
    obtain ⟨hfields, htypes⟩ := draft_closed hd
    rw [heq] at ht hsub
    have hsub' : types ⊆ g.plan := List.Subset.trans (List.subset_append_left _ _) hsub
    rcases List.mem_append.mp ht with ht | ht
    · exact (htypes t ht).mono hsub'
    · rw [List.mem_singleton.mp ht]
      exact ⟨fun row hr => (hfields row hr).mono hsub', by simp [Model.objectType]⟩

end Generator

namespace Registry

/-- A registry has an object type that may be an input under a name. -/
def HasInputObject (r : Registry) (n : String) : Prop :=
  ∃ t, r.find? (.text n) = some t ∧ t.category = .object ∧ t.input = true

/-- All that a field refers to is there: a scalar field names its kind, any other a registered type;
a type that is made for the field is the one that it names, and what else a field names may be an
input. -/
structure Resolves (r : Registry) (f : Field) : Prop where
  scalar : f.isScalar = true → ∃ kind, f.scalarKind = some kind ∧ f.typeName = some kind.name
  named : f.isScalar = false → ∃ n t, f.typeName = some n ∧ r.find? (.text n) = some t
  nested : ∀ n, f.nestedTypeName = some n → f.typeName = some n ∧ ∃ t, r.find? (.text n) = some t
  model : f.isScalar = false → f.nestedTypeName = none → ∃ n, f.typeName = some n ∧
    r.HasInputObject n
  relation : f.isRelation = true → ∃ n, f.typeName = some n ∧ r.HasInputObject n

theorem Resolves.of_pointsTo {f : Field} (hf : f.PointsTo known types)
    (ht : ∀ t ∈ types, ∃ e, r.find? t.name = some e) (hk : ∀ n ∈ known, r.HasInputObject n) :
    r.Resolves f := by
  cases hf with
  | scalar kind h hr hkind hn hd =>
    exact ⟨fun _ => ⟨kind, hkind, hn⟩, by simp [h], by simp [hd], by simp [h], by simp [hr]⟩
  | derived t n h hr hin htn hn hd =>
    obtain ⟨e, he⟩ := ht t hin
    rw [htn] at he
    exact ⟨by simp [h], fun _ => ⟨n, e, hn, he⟩,
      fun _ h' => by simp_all, by simp [hd], by simp [hr]⟩
  | model n h hin hn hd =>
    have hobj := hk n hin
    have hreg : ∃ n t, f.typeName = some n ∧ r.find? (.text n) = some t :=
      ⟨n, hobj.choose, hn, hobj.choose_spec.1⟩
    exact ⟨by simp [h], fun _ => hreg, by simp [hd], fun _ _ => ⟨n, hn, hobj⟩,
      fun _ => ⟨n, hn, hobj⟩⟩

theorem HasInputObject.of_firstModel {g : Generator} (hr : r.Realizes g.plan)
    (hm : m ∈ g.firstModels) (hd : ∃ d, (g.draft m).outcome = .ok d) : r.HasInputObject m.name := by
  obtain ⟨⟨fields, types⟩, hd⟩ := hd
  obtain ⟨e, he, hs⟩ := hr.holds _ (g.objectType_mem_plan hm hd)
  obtain ⟨-, hcat, -, -, -, -, -, hin⟩ := TypeDescriptor.same_iff.mp hs
  exact ⟨e, he, hcat, hin⟩

end Registry

/-- Every reference in a registry that has been built leads to a type that is there, with the shape
that the reference calls for. -/
theorem buildRegistry_resolves {catalogue : LookupCatalogue} {sources : List ModelSource}
    {source : SettingsSource} {lookup : Option RelationLookup}
    (h : (buildRegistry catalogue sources source lookup).outcome = .ok r) :
    (∀ row ∈ r.types, row.2.category = .object → ∀ field ∈ row.2.fields, r.Resolves field.2) ∧
      (∀ row ∈ r.types, row.2.category = .union → ∀ member ∈ row.2.members,
        (∃ kind : ScalarKind, member = kind.name) ∨ r.HasInputObject member) ∧
      ∃ settings root,
        source.load = .ok settings ∧ r.find? settings.rootTypeName = some root ∧
          ∀ field ∈ root.fields, ∃ n, field.2.typeName = some n ∧ r.HasInputObject n := by
  obtain ⟨models, g, -, hg, hd, hr, hroot⟩ := buildRegistry_realizes h
  obtain ⟨-, -, hs⟩ := Generator.make_ok hg
  have hknown : ∀ n ∈ g.surroundings.knownModels, r.HasInputObject n := by
    intro n hn
    obtain ⟨named, hm, rfl⟩ := List.mem_map.mp hn
    obtain ⟨first, hf, he⟩ := Generator.exists_newModel hm List.not_mem_nil
    rw [← he]
    exact .of_firstModel hr hf (hd first hf)
  have hclosed : ∀ row ∈ r.types, row.2.Closed g.surroundings.knownModels g.plan := by
    intro row hrow
    obtain ⟨t, ht, rfl⟩ := hr.only row hrow
    exact Generator.plan_closed ht
  have hheld : ∀ t ∈ g.plan, ∃ e, r.find? t.name = some e := by
    intro t ht
    obtain ⟨e, he, -⟩ := hr.holds t ht
    exact ⟨e, he⟩
  have hlisted : ∀ field ∈ (rootType g.models g.settings).fields,
      ∃ n, field.2.typeName = some n ∧ r.HasInputObject n := by
    intro field hfield
    obtain ⟨listed, hm, he⟩ := mem_listings hfield
    have hname : field.2.typeName = some listed.name := by
      rw [he]
      rfl
    exact ⟨listed.name, hname, hknown listed.name (List.mem_map_of_mem hm)⟩
  refine ⟨?_, ?_, g.settings, rootType g.models g.settings, hs, hroot, hlisted⟩
  · intro row hrow _ field hfield
    exact .of_pointsTo ((hclosed row hrow).fields field hfield) hheld hknown
  · intro row hrow _ member hmember
    rcases (hclosed row hrow).members member hmember with hkind | hk
    · exact .inl hkind
    · exact .inr (hknown member hk)

theorem buildRegistry_resolves_bookkeeping :
    ∃ r, (buildRegistry [] bookkeeping (.given {}) none).outcome = .ok r ∧
      (∀ row ∈ r.types, row.2.category = .object →
        ∀ field ∈ row.2.fields, r.Resolves field.2) ∧
      ∀ row ∈ r.types, row.2.category = .union → ∀ member ∈ row.2.members,
        (∃ kind : ScalarKind, member = kind.name) ∨ r.HasInputObject member := by
  obtain ⟨r, h⟩ := exists_bookkeepingRegistry
  obtain ⟨hfields, hmembers, -⟩ := buildRegistry_resolves h
  exact ⟨r, h, hfields, hmembers⟩

end ModelSchema
