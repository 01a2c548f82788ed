import ModelSchema.Proofs.Schema.EmbeddedObjects
import ModelSchema.Proofs.Schema.FieldShapes
import ModelSchema.Proofs.Schema.Listings

/-!
# Hidden fields

A model and each structure inside its properties have a set of hidden names of their own. Main
statement: in a registry that has been built the fields of a structure are hidden exactly by the set
of the structure, and those of a model by the set of the model unless they are relations, which are
never hidden; so the set of a model counts for all of its fields exactly if it has no name of an
exposed relation.
-/

namespace ModelSchema

variable {g : Generator} {m : Model} {r : Registry} {o : Owner} {p : Property} {f f' : Field}
  {t u : TypeDescriptor} {hidden : List Value} {fields : List (Value × Field)}
  {types : List TypeDescriptor} {relation : Relation}

namespace TypeDescriptor

/-- The fields of a type are hidden exactly by a set of names. -/
def Hides (t : TypeDescriptor) (hidden : List Value) : Prop :=
  ∀ row ∈ t.fields, row.2.isHidden = hidden.contains row.2.name

/-- The fields of a type that are not relations are hidden exactly by a set of names, and no
relation is hidden. -/
def HidesProperties (t : TypeDescriptor) (hidden : List Value) : Prop :=
  ∀ row ∈ t.fields, row.2.isHidden = (!row.2.isRelation && hidden.contains row.2.name)

end TypeDescriptor

theorem Field.hidden_congr (h : f.same f' = true) :
    f.isHidden = f'.isHidden ∧ f.isRelation = f'.isRelation ∧
      ∀ hidden : List Value, hidden.contains f.name = hidden.contains f'.name := by
  obtain ⟨hagrees, -⟩ := Field.same_iff.mp h
  obtain ⟨hname, -, -, -, -, hrelation, -, -, -, -, hhidden, -⟩ := Field.agrees_iff.mp hagrees
  exact ⟨hhidden, hrelation, fun hidden => List.contains_congr hname⟩

theorem TypeDescriptor.Hides.of_same (h : t.Hides hidden) (hs : t.same u = true) :
    u.Hides hidden := by
  intro row hrow
  obtain ⟨other, hother, -, hsame⟩ := TypeDescriptor.same_fields hs hrow
  obtain ⟨hhidden, -, hname⟩ := Field.hidden_congr hsame
  rw [← hhidden, ← hname]
  exact h other hother

theorem TypeDescriptor.HidesProperties.of_same (h : t.HidesProperties hidden)
    (hs : t.same u = true) : u.HidesProperties hidden := by
  intro row hrow
  obtain ⟨other, hother, -, hsame⟩ := TypeDescriptor.same_fields hs hrow
  obtain ⟨hhidden, hrelation, hname⟩ := Field.hidden_congr hsame
  rw [← hhidden, ← hrelation, ← hname]
  exact h other hother

theorem Standing.isHidden_of_field? {standing : Standing} (h : standing.field? o p = some f) :
    f.isHidden = o.hidden.contains f.name := by
  cases standing <;> cases h <;> rfl

/-- The fields inside a structure are hidden by the set of the structure alone. -/
theorem DeclarationTree.isHidden_of_mem_fieldsInside {tree : DeclarationTree} {s : Surroundings}
    {typeName : String} {row : Value × Field} (h : row ∈ tree.fieldsInside s typeName) :
    row.2.isHidden = tree.declaration.hiddenInside.contains row.2.name := by
  obtain ⟨child, -, hmade⟩ := List.mem_filterMap.mp h
  obtain ⟨f, hf, rfl⟩ := Option.map_eq_some_iff.mp hmade
  exact Standing.isHidden_of_field? hf

namespace Generator

theorem field_cases_of_draft (h : (g.draft m).outcome = .ok (fields, types)) {row : Value × Field}
    (hrow : row ∈ fields) :
    row.2.isRelation = false ∧ row.2.isHidden = m.hidden.contains row.2.name ∨
      ∃ relation ∈ g.exposedRelations m, row.2.isRelation = true ∧ row.2.isHidden = false ∧
        row.2.name = .text relation.name := by
  obtain ⟨result, hall, -, rfl⟩ := compiles_of_draft h
  rcases Table.snd_mem_merge hrow with ⟨old, hold, hs⟩ | ⟨new, hnew, hs⟩
  · rcases Table.snd_mem_merge hold with ⟨_, hnil, -⟩ | ⟨made, hmade, hs'⟩
    · cases hnil
    · obtain ⟨p, hp, hf, -⟩ := mem_fieldRows.mp hmade
      obtain ⟨hdeclares, -⟩ := (hall p hp).shaped.2 made.2 hf
      rw [hs, hs', hdeclares.name_eq]
      exact .inl ⟨hdeclares.isRelation_eq, hdeclares.isHidden_eq⟩
  · obtain ⟨relation, hrelation, rfl⟩ := List.mem_map.mp hnew
    rw [hs]
    exact .inr ⟨relation, hrelation, rfl, rfl, rfl⟩

/-- Each exposed relation has a field, though not necessarily its own: another one may bear its
name. -/
theorem exists_field_of_exposed (h : (g.draft m).outcome = .ok (fields, types))
    (hrelation : relation ∈ g.exposedRelations m) :
    ∃ row ∈ fields, row.2.isRelation = true ∧ row.2.name = .text relation.name := by
  obtain ⟨result, -, -, rfl⟩ := compiles_of_draft h
  have hin : (.text relation.name, .ofRelation relation (relationArguments g.settings)) ∈
      relationRows g.settings (g.exposedRelations m) := List.mem_map_of_mem hrelation
  obtain ⟨other, hother, hkey, hfound⟩ := Table.find?_merge_of_mem
    (Table.ofRows (fieldRows result (m.properties.map (·.2)))) hin
  obtain ⟨last, -, rfl⟩ := List.mem_map.mp hother
  obtain ⟨row, hrow, -, hfield⟩ := Table.mem_of_find? hfound
  refine ⟨row, hrow, ?_, ?_⟩
  · rw [hfield]
    rfl
  · rw [hfield]
    exact Value.eq_of_beq_text hkey

theorem hidesProperties_of_draft (h : (g.draft m).outcome = .ok (fields, types)) :
    (m.objectType fields).HidesProperties m.hidden := by
  intro row hrow
  rcases field_cases_of_draft h hrow with ⟨hproperty, hhidden⟩ | ⟨_, -, hrelation, hshown, -⟩
  · rw [hproperty, hhidden]
    rfl
  · rw [hrelation, hshown]
    rfl

theorem hides_iff_of_draft (h : (g.draft m).outcome = .ok (fields, types)) :
    (m.objectType fields).Hides m.hidden ↔
      ∀ relation ∈ g.exposedRelations m, m.hidden.contains (.text relation.name) = false := by
  constructor
  · intro hhides relation hrelation
    obtain ⟨row, hrow, hrelated, hname⟩ := exists_field_of_exposed h hrelation
    have hshown : row.2.isHidden = false := by
      rw [hidesProperties_of_draft h row hrow, hrelated]
      rfl
    rw [← hname, ← hhides row hrow, hshown]
  · intro hnone row hrow
    rcases field_cases_of_draft h hrow with ⟨-, hhidden⟩ | ⟨relation, hin, -, hshown, hname⟩
    · exact hhidden
    · rw [hshown, hname, hnone relation hin]

end Generator

/-- The type that a registry has for a model hides the fields of its properties, and hides all as
declared exactly if no exposed relation is to be hidden. -/
theorem Registry.Realizes.hides_own (hr : r.Realizes g.plan) (hm : m ∈ g.firstModels)
    (hd : (g.draft m).outcome = .ok (fields, types)) :
    ∃ own, r.find? (.text m.name) = some own ∧ own.category = .object ∧
      own.HidesProperties m.hidden ∧
      (own.Hides m.hidden ↔
        ∀ relation ∈ g.exposedRelations m, m.hidden.contains (.text relation.name) = false) := by
  obtain ⟨own, hfound, hsame⟩ := hr.holds _ (Generator.objectType_mem_plan hm hd)
  have hsame' : (m.objectType fields).same own = true := TypeDescriptor.same_symm hsame
  obtain ⟨-, hcategory, -⟩ := TypeDescriptor.same_iff.mp hsame
  refine ⟨own, hfound, hcategory, (Generator.hidesProperties_of_draft hd).of_same hsame', ?_⟩
  rw [← Generator.hides_iff_of_draft hd]
  exact ⟨fun h => h.of_same hsame, fun h => h.of_same hsame'⟩

/-- Each structure inside a property of a model has an object in the registry, with the fields that
the structure itself names hidden. -/
theorem Registry.Realizes.hides_inside (hr : r.Realizes g.plan) (hm : m ∈ g.firstModels)
    (hd : (g.draft m).outcome = .ok (fields, types)) (hp : p ∈ m.properties.map (·.2)) :
    ∃! tree : DeclarationTree, (tree.declaration = p ∧ tree.Whole) ∧
      ∀ visit ∈ tree.postorder, visit.2.inside ≠ [] →
        ∃ e, r.find? (.text (pathName m.name visit.1)) = some e ∧ e.category = .object ∧
          e.Hides visit.2.declaration.hiddenInside := by
  obtain ⟨rows, hcompiled, -⟩ := Generator.draft_ok_iff.mp hd
  obtain ⟨hall, -, rfl⟩ := compileAll_ok_iff.mp hcompiled
  obtain ⟨c, hc⟩ := hall p hp
  obtain ⟨tree, rfl, hwhole, hyields⟩ := compileWithin_yields hc
  refine ⟨tree, ⟨⟨rfl, hwhole⟩, ?_⟩, ?_⟩
  · intro visit hvisit hinside
    obtain ⟨u, hu, hcategory, hname, hfields⟩ := hyields.object_of_inside hwhole hvisit hinside
    have hmade : u ∈ g.plan := by
      apply Generator.mem_plan_of_draft hm hd
      apply List.mem_append_left
      apply mem_madeTypes.mpr
      refine ⟨tree.declaration, hp, ?_⟩
      rw [hc]
      exact hu
    obtain ⟨e, hfound, hsame⟩ := hr.holds u hmade
    obtain ⟨-, hcategory', -⟩ := TypeDescriptor.same_iff.mp hsame
    have hides : u.Hides visit.2.declaration.hiddenInside := by
      intro row hrow
      rw [hfields] at hrow
      exact DeclarationTree.isHidden_of_mem_fieldsInside hrow
    rw [hname] at hfound
    exact ⟨e, hfound, hcategory'.trans hcategory, hides.of_same (TypeDescriptor.same_symm hsame)⟩
  · rintro tree' ⟨⟨hp', hwhole'⟩, -⟩
    exact hwhole'.unique hwhole hp'

/-- In a registry that has been built the type of each compiled model hides exactly the fields of
properties whose names the model hides, and so all fields as declared exactly if the model hides no
exposed relation; and the type of each structure inside its properties hides exactly the fields
whose names the structure hides. -/
theorem buildRegistry_hides {catalogue : LookupCatalogue} {sources : List ModelSource}
    {source : SettingsSource} {lookup : Option RelationLookup}
    (h : (buildRegistry catalogue sources source lookup).outcome = .ok r) :
    ∃ g, (loadModels sources).outcome = .ok g.models ∧
      Generator.make catalogue g.models source lookup = .ok g ∧
      ∀ m ∈ g.firstModels,
        (∃ own, r.find? (.text m.name) = some own ∧ own.category = .object ∧
          own.HidesProperties m.hidden ∧
          (own.Hides m.hidden ↔
            ∀ relation ∈ g.exposedRelations m, m.hidden.contains (.text relation.name) = false)) ∧
        ∀ p ∈ m.properties.map (·.2),
          ∃! tree : DeclarationTree, (tree.declaration = p ∧ tree.Whole) ∧
            ∀ visit ∈ tree.postorder, visit.2.inside ≠ [] →
              ∃ e, r.find? (.text (pathName m.name visit.1)) = some e ∧ e.category = .object ∧
                e.Hides visit.2.declaration.hiddenInside := by
  obtain ⟨models, g, hm, hg, hdrafts, hr, -⟩ := buildRegistry_realizes h
  obtain ⟨-, hmodels, -⟩ := Generator.make_ok hg
  subst hmodels
  refine ⟨g, hm, hg, ?_⟩
  intro m hfirst
  obtain ⟨⟨fields, types⟩, hd⟩ := hdrafts m hfirst
  exact ⟨hr.hides_own hfirst hd, fun p hp => hr.hides_inside hfirst hd hp⟩

section Variants

variable {m' : Model}

theorem Model.Declares.of_properties {n : String} {p : Property} (h : m'.Declares n p)
    (hname : m'.name = m.name) (hproperties : m'.properties = m.properties) : m.Declares n p := by
  induction h with
  | own hp =>
    rw [hname]
    exact .own (hproperties ▸ hp)
  | inside _ hitem hrows hrow ih => exact .inside ih hitem hrows hrow

theorem Model.Plain.of_properties (h : m.Plain) (hname : m'.name = m.name)
    (hproperties : m'.properties = m.properties) (hdescription : m'.description = m.description) :
    m'.Plain := by
  obtain ⟨⟨hown, hkeys⟩, hremark, hplain⟩ := h
  rw [← hproperties] at hown
  rw [← hdescription] at hremark
  exact ⟨⟨hown, fun hdecl => hkeys (hdecl.of_properties hname hproperties)⟩, hremark,
    fun hdecl => hplain (hdecl.of_properties hname hproperties)⟩

end Variants

/-- An account that hides its status, and a city, which it does not have itself. -/
def secretiveAccount : Model := { accountModel with hidden := [.text "status", .text "city"] }

def accountAddress : Property :=
  { name := .text "address"
    type := .embedded (.mapping [(.text "city", .type .text)]) .null [] }

def accountCity : Property := { name := .text "city", type := .scalar "string" }

def accountAddressTree : DeclarationTree := .node accountAddress [.node accountCity []]

theorem accountAddressTree_whole : accountAddressTree.Whole := by
  have hopens : accountAddress.Opens (.mapping [(.text "city", .type .text)]) .null [] :=
    ⟨rfl, rfl, rfl⟩
  have hrows : Property.ofMapping (.mapping [(.text "city", .type .text)]) =
      .ok [(.text "city", accountCity)] := rfl
  apply DeclarationTree.Whole.opened hopens hrows rfl
  intro t ht
  rw [List.mem_singleton.mp ht]
  exact .flat fun _ _ _ ho => by cases ho.item

theorem buildRegistry_hides_secretive :
    ∃ r own inner,
      (buildRegistry [] [.read secretiveAccount, .read ledgerModel] (.given {}) none).outcome =
          .ok r ∧
        r.find? (.text "Account") = some own ∧ own.Hides [.text "status", .text "city"] ∧
        r.find? (.text "Account_address") = some inner ∧ inner.Hides [] := by
  have hsecretive : secretiveAccount.Plain := accountModel_plain.of_properties rfl rfl rfl
  have hplain : ∀ m ∈ [secretiveAccount, ledgerModel], m.Plain := by
    simp [ledgerModel_plain, hsecretive]
  obtain ⟨r, h, -⟩ :=
    exists_buildRegistry_of_distinct hplain (by decide +kernel) (by decide +kernel)
  obtain ⟨g, hm, hg, hhides⟩ := buildRegistry_hides h
  have hmodels : g.models = [secretiveAccount, ledgerModel] := (Except.ok.inj hm).symm
  rw [hmodels] at hg
  have hg' : g = .ofModels [secretiveAccount, ledgerModel] := (Except.ok.inj hg).symm
  subst hg'
  obtain ⟨⟨own, hown, -, -, hiff⟩, hinside⟩ := hhides secretiveAccount List.mem_cons_self
  have hvisible : own.Hides [.text "status", .text "city"] := by
    apply hiff.mpr
    decide +kernel
  have haddress : accountAddress ∈ secretiveAccount.properties.map (·.2) :=
    List.mem_cons_of_mem _ List.mem_cons_self
  obtain ⟨tree, ⟨⟨hp, hwhole⟩, hstructures⟩, -⟩ := hinside accountAddress haddress
  rw [hwhole.unique accountAddressTree_whole hp] at hstructures
  have hvisit : ([.text "address"], accountAddressTree) ∈ accountAddressTree.postorder :=
    List.mem_concat_self
  obtain ⟨inner, hinner, -, hnone⟩ := hstructures _ hvisit (List.cons_ne_nil _ _)
  exact ⟨r, own, inner, h, hown, hvisible, hinner, hnone⟩

def statusRelation : Relation :=
  { name := "status", source := "Account", target := some "Ledger", kind := .hasOne }

/-- An account that hides its status, which a relation takes the place of. -/
def overruledAccount : Model :=
  { accountModel with
    hidden := [.text "status"]
    relations := [(.text "status", statusRelation)] }

/-- A field that a model hides is shown if a relation takes its place. -/
theorem hidden_relation_is_shown :
    ∃ r own,
      (buildRegistry [] [.read overruledAccount, .read ledgerModel] (.given {}) none).outcome =
          .ok r ∧
        r.find? (.text "Account") = some own ∧
        ∃ row ∈ own.fields, overruledAccount.hidden.contains row.2.name = true ∧
          row.2.isHidden = false := by
  have hoverruled : overruledAccount.Plain := accountModel_plain.of_properties rfl rfl rfl
  have hplain : ∀ m ∈ [overruledAccount, ledgerModel], m.Plain := by
    simp [ledgerModel_plain, hoverruled]
  obtain ⟨r, h, -⟩ :=
    exists_buildRegistry_of_distinct hplain (by decide +kernel) (by decide +kernel)
  obtain ⟨models, g, hm, hg, hdrafts, hr, -⟩ := buildRegistry_realizes h
  have hmodels : models = [overruledAccount, ledgerModel] := (Except.ok.inj hm).symm
  subst hmodels
  have hg' : g = .ofModels [overruledAccount, ledgerModel] := (Except.ok.inj hg).symm
  subst hg'
  obtain ⟨⟨fields, types⟩, hd⟩ := hdrafts overruledAccount List.mem_cons_self
  obtain ⟨own, hown, hsame⟩ :=
    hr.holds _ (Generator.objectType_mem_plan (m := overruledAccount) List.mem_cons_self hd)
  have hexposed : statusRelation ∈
      (Generator.ofModels [overruledAccount, ledgerModel]).exposedRelations overruledAccount :=
    List.mem_cons_self
  obtain ⟨shown, hshown, hrelation, hname⟩ := Generator.exists_field_of_exposed hd hexposed
  have hvisible : shown.2.isHidden = false := by
    rw [Generator.hidesProperties_of_draft hd shown hshown, hrelation]
    rfl
  obtain ⟨row, hrow, -, halike⟩ := TypeDescriptor.same_fields hsame hshown
  obtain ⟨hhidden, -, hnames⟩ := Field.hidden_congr halike
  refine ⟨r, own, h, hown, row, hrow, ?_, ?_⟩
  · rw [hnames, hname]
    decide +kernel
  · rw [hhidden, hvisible]

end ModelSchema
