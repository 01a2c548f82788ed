import ModelSchema.Proofs.Schema.Consistency
import ModelSchema.Proofs.Schema.Permutation

/-!
# Independence of the order of models

Building a registry from the same models in another order has the same outcome: it succeeds or fails
alike, and the two registries have the same names, the same types under them and one fingerprint.
This takes plain models that are told apart by their names and by those of their listings. A root
type whose name is no text goes with no other type, since the names then have no order.
-/

namespace ModelSchema

variable {g : Generator} {models models' : List Model} {r r' : Registry}
  {sources sources' : List ModelSource}

/-- Plain models that are told apart by their names and by those of their listings. -/
structure Independent (models : List Model) : Prop where
  names : (models.map Model.name).Nodup
  listings : ((models.filter Model.shared).map Model.listingName).Nodup
  plain : ∀ m ∈ models, m.Plain

theorem Independent.rearranged (h : Independent models) (hp : models.Perm models') :
    Rearranged models models' :=
  ⟨hp, h.names, h.listings⟩

theorem Independent.perm (h : Independent models) (hp : models.Perm models') :
    Independent models' :=
  ⟨(h.rearranged hp).symm.names, (h.rearranged hp).symm.listings,
    fun m hm => h.plain m (hp.mem_iff.mpr hm)⟩

theorem loadModels_perm (hp : sources.Perm sources')
    (h : (loadModels sources).outcome = .ok models) :
    ∃ models', (loadModels sources').outcome = .ok models' ∧ models.Perm models' := by
  induction hp generalizing models with
  | nil => exact ⟨models, h, .refl _⟩
  | cons source _ ih =>
    simp only [loadModels, Traced.bind_eq_ok, Traced.outcome_pure, Except.ok.injEq] at h
    obtain ⟨m, hm, rest, hr, rfl⟩ := h
    obtain ⟨rest', hr', hp⟩ := ih hr
    refine ⟨m :: rest', ?_, hp.cons m⟩
    simp only [loadModels, Traced.bind_eq_ok, Traced.outcome_pure, Except.ok.injEq]
    exact ⟨m, hm, rest', hr', rfl⟩
  | swap source source' _ =>
    simp only [loadModels, Traced.bind_eq_ok, Traced.outcome_pure, Except.ok.injEq] at h ⊢
    obtain ⟨m, hm, _, ⟨m', hm', rest, hr, rfl⟩, rfl⟩ := h
    exact ⟨m' :: m :: rest, ⟨m', hm', _, ⟨m, hm, rest, hr, rfl⟩, rfl⟩, .swap m' m rest⟩
  | trans _ _ ih ih' =>
    obtain ⟨between, hb, hp⟩ := ih h
    obtain ⟨last, hl, hp'⟩ := ih' hb
    exact ⟨last, hl, hp.trans hp'⟩

namespace Registry

/-- Each type of a registry has its counterpart in another: under the same name, the same as it,
with the same text. -/
def Within (r r' : Registry) : Prop :=
  ∀ row ∈ r.types, ∃ row' ∈ r'.types, row'.1 = row.1 ∧ row.2.same row'.2 = true ∧
    Json.write .canonical row'.2.exported = Json.write .canonical row.2.exported

theorem Within.find? (h : r.Within r') (hd : Table.Distinct r'.types) {name : Value}
    {t : TypeDescriptor} (ht : r.find? name = some t) :
    ∃ t', r'.find? name = some t' ∧ t.same t' = true := by
  obtain ⟨row, hrow, hkey, rfl⟩ := Table.mem_of_find? ht
  obtain ⟨row', hrow', hsame, hs, -⟩ := h row hrow
  rw [← hsame] at hkey
  refine ⟨row'.2, ?_, hs⟩
  rw [Registry.find?, ← Table.find?_congr hkey]
  exact Table.find?_of_mem hd hrow'

theorem Within.matches (h : r.Within r') :
    Json.Matches (r.types.map fun row => (row.1, row.2.exported))
      (r'.types.map fun row => (row.1, row.2.exported)) := by
  intro entry he
  obtain ⟨row, hrow, rfl⟩ := List.mem_map.mp he
  obtain ⟨row', hrow', hkey, -, htext⟩ := h row hrow
  exact ⟨_, List.mem_map_of_mem hrow', hkey, htext⟩

theorem computeFingerprint_eq (hr : TextKeyed r.types) (hr' : TextKeyed r'.types) (h : r.Within r')
    (h' : r'.Within r) : r.computeFingerprint = r'.computeFingerprint := by
  have hkeys := hr.map fun row => row.2.exported
  have hkeys' := hr'.map fun row => row.2.exported
  have hwrite : Json.canonicalText r.exported = Json.canonicalText r'.exported :=
    Json.write_mapping_eq hkeys hkeys' h.matches h'.matches
  rw [computeFingerprint, computeFingerprint, canonicalText, canonicalText, hwrite]

end Registry

namespace Generator

theorem plan_plain {m : Model} {t : TypeDescriptor} (hi : Independent g.models) (hm : m ∈ g.models)
    (ht : t ∈ g.typesOf m) : t.Plain (relationArguments g.settings) :=
  plain_of_mem_typesOf (hi.plain m hm) ht

theorem mem_plan_iff (hi : Independent g.models) {t : TypeDescriptor} :
    t ∈ g.plan ↔ t = rootType g.models g.settings ∨ ∃ m ∈ g.models, t ∈ g.typesOf m := by
  rw [plan, firstModels_eq hi.names, List.mem_cons, List.mem_flatMap]

theorem mem_plan_rearranged_iff (hi : Independent g.models) (hp : g.models.Perm models')
    {t : TypeDescriptor} :
    t ∈ ({ g with models := models' } : Generator).plan ↔
      t = rootType models' g.settings ∨ ∃ m ∈ g.models, t ∈ g.typesOf m := by
  rw [mem_plan_iff (hi.perm hp)]
  simp only [typesOf_rearranged (hi.rearranged hp), hp.mem_iff]

theorem Consistent.rearranged (h : g.Consistent) (hi : Independent g.models)
    (hp : g.models.Perm models') : ({ g with models := models' } : Generator).Consistent := by
  have hmem : ∀ m ∈ ({ g with models := models' } : Generator).firstModels, m ∈ g.firstModels := by
    intro m hm
    rw [firstModels_eq (hi.perm hp).names] at hm
    rw [firstModels_eq hi.names]
    exact hp.mem_iff.mpr hm
  constructor
  · intro m hm t ht
    rw [typesOf_rearranged (hi.rearranged hp)] at ht
    exact h.root m (hmem m hm) t ht
  · intro m hm m' hm' t ht t' ht'
    rw [typesOf_rearranged (hi.rearranged hp)] at ht ht'
    exact h.agree m (hmem m hm) m' (hmem m' hm') t ht t' ht'

theorem drafts_rearranged (hi : Independent g.models) (hp : g.models.Perm models')
    (hd : ∀ m ∈ g.firstModels, ∃ d, (g.draft m).outcome = .ok d) :
    ∀ m ∈ ({ g with models := models' } : Generator).firstModels,
      ∃ d, (({ g with models := models' } : Generator).draft m).outcome = .ok d := by
  intro m hm
  rw [firstModels_eq (hi.perm hp).names] at hm
  rw [draft_rearranged (hi.rearranged hp)]
  rw [firstModels_eq hi.names] at hd
  exact hd m (hp.mem_iff.mpr hm)

/-- What a run registers has its counterpart in a run over the same models in another order. -/
theorem within_rearranged (hi : Independent g.models) (hp : g.models.Perm models')
    (hname : ∃ n, g.settings.rootTypeName = .text n) (hr : r.Realizes g.plan)
    (hr' : r'.Realizes ({ g with models := models' } : Generator).plan)
    (hroot : r'.find? g.settings.rootTypeName = some (rootType models' g.settings)) :
    r.Within r' := by
  intro row hrow
  obtain ⟨t, ht, rfl⟩ := hr.only row hrow
  rcases (mem_plan_iff hi).mp ht with rfl | ⟨m, hm, ht⟩
  · obtain ⟨row', hrow', hkey, hstored⟩ := Table.mem_of_find? hroot
    obtain ⟨n, hn⟩ := hname
    rw [hn] at hkey
    refine ⟨row', hrow', (Value.eq_of_beq_text hkey).trans hn.symm, ?_, ?_⟩
    · rw [hstored]
      exact rootType_same (hi.rearranged hp) g.settings
    · rw [hstored]
      exact (write_rootType (hi.rearranged hp) g.settings).symm
  · have hplain := plan_plain hi hm ht
    obtain ⟨e, he, hs⟩ := hr'.holds t ((mem_plan_rearranged_iff hi hp).mpr (.inr ⟨m, hm, ht⟩))
    obtain ⟨row', hrow', hkey, rfl⟩ := Table.mem_of_find? he
    obtain ⟨n, hn⟩ := hplain.name
    rw [hn] at hkey
    obtain ⟨u, hu, rfl⟩ := hr'.only row' hrow'
    refine ⟨(u.name, u), hrow', (Value.eq_of_beq_text hkey).trans hn.symm,
      TypeDescriptor.same_symm hs, ?_⟩
    rcases (mem_plan_rearranged_iff hi hp).mp hu with rfl | ⟨m', hm', hu⟩
    · rw [not_same_rootType ht] at hs
      cases hs
    · exact TypeDescriptor.write_exported_eq_of_same (plan_plain hi hm' hu) hplain hs

/-- Beside other types the root type has a text for its name, or else the names have no order. -/
theorem exists_rootTypeName (hi : Independent g.models) (hne : g.models ≠ [])
    (hd : ∀ m ∈ g.firstModels, ∃ d, (g.draft m).outcome = .ok d)
    (ha : ({} : Registry).AcceptsAll g.plan) {text : String}
    (ht : (({} : Registry).addAll g.plan).computeFingerprint = .ok text) :
    ∃ n, g.settings.rootTypeName = .text n := by
  cases hname : Json.text? g.settings.rootTypeName with
  | some n =>
    refine ⟨n, ?_⟩
    cases hv : g.settings.rootTypeName <;> rw [hv] at hname <;> simp_all [Json.text?]
  | none =>
    exfalso
    have hr := Registry.Realizes.of_acceptsAll ha
    obtain ⟨others, hothers⟩ :=
      Registry.types_prefix_addAll (({} : Registry).add (rootType g.models g.settings))
      (g.firstModels.flatMap g.typesOf)
    change [(g.settings.rootTypeName, rootType g.models g.settings)] ++ others =
      (({} : Registry).addAll g.plan).types at hothers
    generalize ({} : Registry).addAll g.plan = registry at hr ht hothers
    -- the type of a model stands behind the root type
    obtain ⟨m, hm⟩ := List.exists_mem_of_ne_nil g.models hne
    obtain ⟨⟨fields, types⟩, hdraft⟩ := hd m (by rw [firstModels_eq hi.names]; exact hm)
    have hown : m.objectType fields ∈ g.plan :=
      objectType_mem_plan (by rw [firstModels_eq hi.names]; exact hm) hdraft
    obtain ⟨e, he, -⟩ := hr.holds _ hown
    obtain ⟨row, hrow, hkey, -⟩ := Table.mem_of_find? he
    have hkey' : row.1 = .text m.name := Value.eq_of_beq_text hkey
    rw [← hothers] at hrow
    rcases List.mem_append.mp hrow with hrow | hrow
    · have hroot : g.settings.rootTypeName = .text m.name := by
        rw [List.mem_singleton.mp hrow] at hkey'
        exact hkey'
      rw [hroot] at hname
      cases hname
    · cases others with
      | nil => cases hrow
      | cons next rest =>
        have hnext : ∃ n, next.1 = .text n := by
          have hdistinct := hr.distinct
          rw [← hothers] at hdistinct
          obtain ⟨t, ht, hnext⟩ := hr.only next (by rw [← hothers]; simp)
          rcases (mem_plan_iff hi).mp ht with rfl | ⟨m', hm', ht⟩
          · have hdiff := (List.pairwise_cons.mp hdistinct).1 next List.mem_cons_self
            rw [hnext] at hdiff
            simp [rootType] at hdiff
          · rw [hnext]
            exact (plan_plain hi hm' ht).name
        obtain ⟨n, hn⟩ := hnext
        have hwrite : Json.write .canonical registry.exported = .error .unorderedKeys := by
          rw [Registry.exported, ← hothers]
          exact Json.write_mapping_of_mixed (n := n) hname hn
        rw [Registry.computeFingerprint, Registry.canonicalText, Json.canonicalText, hwrite] at ht
        cases ht

end Generator

variable {catalogue : LookupCatalogue} {source : SettingsSource} {lookup : Option RelationLookup}

/-- A registry that is built from models can be built from them in another order, with the same
content. -/
theorem buildRegistry_rearranged (hp : sources.Perm sources')
    (hi : ∀ models, (loadModels sources).outcome = .ok models → Independent models)
    (h : (buildRegistry catalogue sources source lookup).outcome = .ok r) :
    ∃ r',
      (buildRegistry catalogue sources' source lookup).outcome = .ok r' ∧ Table.Distinct r'.types ∧
        r.Within r' ∧ r.fingerprint = r'.fingerprint := by
  obtain ⟨models, g, hm, hg, hd, ha, text, ht, rfl⟩ := buildRegistry_ok_iff.mp h
  obtain ⟨hfresh, rfl, hs⟩ := Generator.make_ok hg
  obtain ⟨models', hm', hperm⟩ := loadModels_perm hp hm
  have hi := hi g.models hm
  have hg' : Generator.make catalogue models' source lookup = .ok { g with models := models' } :=
    Generator.make_with_models hg
  have hd' := Generator.drafts_rearranged hi hperm hd
  have hr := Registry.Realizes.of_acceptsAll ha
  have hc' := (Generator.Consistent.of_realizes hr).rearranged hi hperm
  have ha' := hc'.acceptsAll (hi.perm hperm).plain ha.1.hashable
  have hr' := Registry.Realizes.of_acceptsAll ha'
  have hroot' := ({ g with models := models' } : Generator).find?_rootType
  by_cases hne : g.models = []
  · -- without models there is no other order
    obtain rfl : models' = g.models := by
      rw [hne] at hperm ⊢
      exact List.nil_perm.mp hperm
    have hw : (({} : Registry).addAll g.plan).Within (({} : Registry).addAll g.plan) :=
      fun row hrow => ⟨row, hrow, rfl, row.2.same_refl, rfl⟩
    exact ⟨_, buildRegistry_ok_iff.mpr ⟨_, _, hm', hg', hd', ha', text, ht, rfl⟩,
      hr.distinct, hw, rfl⟩
  · have hname := Generator.exists_rootTypeName hi hne hd ha ht
    have hw := Generator.within_rearranged hi hperm hname hr hr' hroot'
    have hw' := Generator.within_rearranged (g := { g with models := models' })
      (hi.perm hperm) hperm.symm hname hr' hr g.find?_rootType
    have hkeys := Generator.textKeyed_of_realizes hi.plain hname hr
    have hkeys' :=
      Generator.textKeyed_of_realizes (g := { g with models := models' })
      (hi.perm hperm).plain hname hr'
    have hfp := Registry.computeFingerprint_eq hkeys hkeys' hw hw'
    rw [ht] at hfp
    refine ⟨_, buildRegistry_ok_iff.mpr ⟨_, _, hm', hg', hd', ha', text, hfp.symm, rfl⟩,
      hr'.distinct, hw, ?_⟩
    rw [Registry.fingerprint_sealWith, Registry.fingerprint_sealWith]

/-- The order of the models does not count: a registry is built from them in any order or in none,
with the same names, the same types under them and the same fingerprint. -/
theorem buildRegistry_perm (hp : sources.Perm sources')
    (hi : ∀ models, (loadModels sources).outcome = .ok models → Independent models) :
    ((∃ r, (buildRegistry catalogue sources source lookup).outcome = .ok r) ↔
        ∃ r', (buildRegistry catalogue sources' source lookup).outcome = .ok r') ∧
      ∀ r r', (buildRegistry catalogue sources source lookup).outcome = .ok r →
        (buildRegistry catalogue sources' source lookup).outcome = .ok r' →
          (∀ name, (r.find? name).isSome = (r'.find? name).isSome) ∧
          (∀ name t t', r.find? name = some t → r'.find? name = some t' → t.same t' = true) ∧
          r.fingerprint = r'.fingerprint := by
  have hi' : ∀ models, (loadModels sources').outcome = .ok models → Independent models := by
    intro models' hm'
    obtain ⟨models, hm, hperm⟩ := loadModels_perm hp.symm hm'
    exact (hi models hm).perm hperm.symm
  constructor
  · constructor
    · rintro ⟨r, h⟩
      obtain ⟨r', h', -⟩ := buildRegistry_rearranged hp hi h
      exact ⟨r', h'⟩
    · rintro ⟨r', h'⟩
      obtain ⟨r, h, -⟩ := buildRegistry_rearranged hp.symm hi' h'
      exact ⟨r, h⟩
  · intro r r' h h'
    obtain ⟨found', hf', hd', hw, hfp⟩ := buildRegistry_rearranged hp hi h
    obtain ⟨found, hf, hd, hw', -⟩ := buildRegistry_rearranged hp.symm hi' h'
    rw [h'] at hf'
    rw [h] at hf
    cases hf'
    cases hf
    refine ⟨?_, ?_, hfp⟩
    · intro name
      rw [Bool.eq_iff_iff, Option.isSome_iff_exists, Option.isSome_iff_exists]
      constructor
      · rintro ⟨t, ht⟩
        obtain ⟨t', ht', -⟩ := hw.find? hd' ht
        exact ⟨t', ht'⟩
      · rintro ⟨t', ht'⟩
        obtain ⟨t, ht, -⟩ := hw'.find? hd ht'
        exact ⟨t, ht⟩
    · intro name t t' ht ht'
      obtain ⟨found, hfound, hs⟩ := hw.find? hd' ht
      rw [ht'] at hfound
      cases hfound
      exact hs

theorem buildRegistry_perm_bookkeeping :
    bookkeeping.Perm bookkeeping.reverse ∧
      (∀ models, (loadModels bookkeeping).outcome = .ok models → Independent models) ∧
      ∃ r r', (buildRegistry [] bookkeeping (.given {}) none).outcome = .ok r ∧
        (buildRegistry [] bookkeeping.reverse (.given {}) none).outcome = .ok r' ∧
        (∀ name, (r.find? name).isSome = (r'.find? name).isSome) ∧
        r.fingerprint = r'.fingerprint := by
  have hp : bookkeeping.Perm bookkeeping.reverse := (List.reverse_perm bookkeeping).symm
  have hi : ∀ models, (loadModels bookkeeping).outcome = .ok models → Independent models := by
    rintro _ ⟨⟩
    refine ⟨by decide, by decide, ?_⟩
    intro m hm
    simp only [List.mem_cons, List.not_mem_nil, or_false] at hm
    rcases hm with rfl | rfl
    · exact accountModel_plain
    · exact ledgerModel_plain
  obtain ⟨hbuilt, hequal⟩ := @buildRegistry_perm _ _ [] (.given {}) none hp hi
  obtain ⟨r, h⟩ := exists_bookkeepingRegistry
  obtain ⟨r', h'⟩ := hbuilt.mp ⟨r, h⟩
  obtain ⟨hnames, -, hfingerprint⟩ := hequal r r' h h'
  exact ⟨hp, hi, r, r', h, h', hnames, hfingerprint⟩

end ModelSchema
