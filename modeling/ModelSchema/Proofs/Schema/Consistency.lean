import ModelSchema.Proofs.Schema.PlainModels

/-!
# Consistent models

The models of a run are consistent if none of their types bears the name of the root type and types
that share a name are the same. Whatever a registry holds after a build came from consistent models.
Conversely consistent models that are plain are built as soon as each has a draft: the types of
plain models can all be compared and all be written, so nothing else can go wrong.
-/

namespace ModelSchema

variable {g : Generator} {r : Registry} {m : Model} {models : List Model} {settings : Settings}

/-- The root type and the filter of relations are named by texts, and the root type has a remark. -/
structure Settings.Plain (settings : Settings) : Prop where
  rootName : ∃ n, settings.rootTypeName = .text n
  rootDescription : settings.rootTypeDescription.IsRemark
  filter : settings.relationFilterArgument.IsRemark

theorem textKeyed_pageArguments : TextKeyed pageArguments :=
  ⟨by simp [pageArguments], by simp [Table.Distinct, pageArguments]⟩

theorem Settings.Plain.textKeyed (h : settings.Plain) :
    TextKeyed (Generator.relationArguments settings) := by
  rcases h.filter with hf | ⟨n, hf⟩
  · simpa [Generator.relationArguments, connectionArguments, hf, Value.isTrue]
      using textKeyed_pageArguments
  · by_cases ht : (Value.text n).isTrue = true
    · have hkeyed : TextKeyed (Table.merge [(Value.text n, filterArgument)] pageArguments) := by
        constructor
        · intro row hrow
          rcases Table.fst_mem_merge hrow with ⟨old, ho, hs⟩ | ⟨new, hn, hs⟩
          · rw [List.mem_singleton.mp ho] at hs
            exact ⟨n, hs⟩
          · rw [hs]
            exact textKeyed_pageArguments.text new hn
        · exact Table.distinct_merge (List.pairwise_singleton _ _) _
      simpa [Generator.relationArguments, connectionArguments, hf, ht, Value.isHashable]
        using hkeyed
    · simpa [Generator.relationArguments, connectionArguments, hf, ht] using textKeyed_pageArguments

theorem Settings.Plain.rootType_plain (h : settings.Plain) (models : List Model) :
    (rootType models settings).Plain pageArguments := by
  refine ⟨h.rootName, h.rootDescription, by simp [rootType], textKeyed_listings models,
    fun row hrow => ?_⟩
  obtain ⟨listed, -, he⟩ := mem_listings hrow
  rw [he]
  exact ⟨.inl rfl, .inr rfl⟩

namespace Generator

/-- No type that the models bring bears the name of the root type, and those that share a name are
the same. -/
structure Consistent (g : Generator) : Prop where
  root : ∀ m ∈ g.firstModels, ∀ t ∈ g.typesOf m, (g.settings.rootTypeName == t.name) = false
  agree : ∀ m ∈ g.firstModels, ∀ m' ∈ g.firstModels, ∀ t ∈ g.typesOf m, ∀ t' ∈ g.typesOf m',
    (t.name == t'.name) = true → t.same t' = true

theorem Consistent.of_realizes (hr : r.Realizes g.plan) : g.Consistent := by
  have hheld : ∀ m ∈ g.firstModels, ∀ t ∈ g.typesOf m, r.Holds t :=
    fun m hm t ht => hr.holds t (mem_plan hm ht)
  constructor
  · intro m hm t ht
    apply Bool.eq_false_iff.mpr
    intro hkey
    have hsame :=
      (hr.holds (rootType g.models g.settings) List.mem_cons_self).same (hheld m hm t ht) hkey
    rw [not_same_rootType ht] at hsame
    cases hsame
  · intro m hm m' hm' t ht t' ht' hkey
    exact (hheld m hm t ht).same (hheld m' hm' t' ht') hkey

theorem Consistent.acceptsAll (h : g.Consistent) (hplain : ∀ m ∈ g.models, m.Plain)
    (hroot : g.settings.rootTypeName.isHashable = true) : ({} : Registry).AcceptsAll g.plan := by
  have hbrought : ∀ t ∈ g.firstModels.flatMap g.typesOf, ∃ m ∈ g.firstModels, t ∈ g.typesOf m :=
    fun t ht => List.mem_flatMap.mp ht
  have htypes : ∀ m ∈ g.firstModels, ∀ t ∈ g.typesOf m, t.Plain (relationArguments g.settings) :=
    fun m hm t ht => plain_of_mem_typesOf (hplain m (mem_of_mem_newModels hm).1) ht
  constructor
  · exact Registry.accepts_of_free rfl hroot rfl
  · apply Registry.acceptsAll_of_compatible rfl
    · intro t ht
      obtain ⟨m, hm, ht⟩ := hbrought t ht
      obtain ⟨n, hn⟩ := (htypes m hm t ht).name
      rw [hn]
      rfl
    · intro row hrow t ht hkey
      obtain ⟨m, hm, ht⟩ := hbrought t ht
      have hrow' : row = (g.settings.rootTypeName, rootType g.models g.settings) := by
        rw [Registry.add_of_free rfl] at hrow
        exact List.mem_singleton.mp hrow
      rw [hrow', h.root m hm t ht] at hkey
      cases hkey
    · intro t ht u hu hkey
      obtain ⟨m, hm, ht⟩ := hbrought t ht
      obtain ⟨m', hm', hu⟩ := hbrought u hu
      have hsignals := (htypes m hm t ht).signals_eq_false (remarked_relationArguments g.settings) u
      exact ⟨hsignals, h.agree m hm m' hm' t ht u hu hkey⟩

/-- Models whose types are told apart by their names are consistent. -/
theorem Consistent.of_distinct (h : g.plan.Pairwise fun t u => (t.name == u.name) = false) :
    g.Consistent := by
  obtain ⟨hroot, hrest⟩ := List.pairwise_cons.mp h
  have hagree : ∀ t ∈ g.firstModels.flatMap g.typesOf, ∀ u ∈ g.firstModels.flatMap g.typesOf,
      (t.name == u.name) = true → t.same u = true := by
    apply List.Pairwise.forall_of_forall_of_flip
    · intro t _ _
      exact t.same_refl
    · exact hrest.imp fun hne hkey => by rw [hne] at hkey; cases hkey
    · exact hrest.imp fun hne hkey => by rw [BEq.symm hkey] at hne; cases hne
  constructor
  · intro m hm t ht
    exact hroot t (List.mem_flatMap.mpr ⟨m, hm, ht⟩)
  · intro m hm m' hm' t ht t' ht' hkey
    exact hagree t (List.mem_flatMap.mpr ⟨m, hm, ht⟩) t' (List.mem_flatMap.mpr ⟨m', hm', ht'⟩) hkey

theorem textKeyed_of_realizes (hplain : ∀ m ∈ g.models, m.Plain)
    (hname : ∃ n, g.settings.rootTypeName = .text n) (hr : r.Realizes g.plan) :
    TextKeyed r.types := by
  constructor
  · intro row hrow
    obtain ⟨t, ht, rfl⟩ := hr.only row hrow
    rcases List.mem_cons.mp ht with rfl | ht
    · exact hname
    · obtain ⟨m, hm, ht⟩ := List.mem_flatMap.mp ht
      exact (plain_of_mem_typesOf (hplain m (mem_of_mem_newModels hm).1) ht).name
  · exact hr.distinct

theorem exists_fingerprint_of_realizes (hplain : ∀ m ∈ g.models, m.Plain) (hs : g.settings.Plain)
    (hr : r.Realizes g.plan) : ∃ text, r.computeFingerprint = .ok text := by
  have hkeys : TextKeyed r.types := textKeyed_of_realizes hplain hs.rootName hr
  have htypes : ∀ row ∈ r.types, row.2.Exportable ∧ row.2.Legible := by
    intro row hrow
    obtain ⟨t, ht, rfl⟩ := hr.only row hrow
    rcases List.mem_cons.mp ht with rfl | ht
    · exact (hs.rootType_plain g.models).exportable textKeyed_pageArguments remarked_pageArguments
    · obtain ⟨m, hm, ht⟩ := List.mem_flatMap.mp ht
      have hplain' := plain_of_mem_typesOf (hplain m (mem_of_mem_newModels hm).1) ht
      exact hplain'.exportable hs.textKeyed (remarked_relationArguments g.settings)
  exact Registry.Exportable.exists_fingerprint ⟨hkeys, fun row hrow => (htypes row hrow).1⟩
    fun row hrow => (htypes row hrow).2

end Generator

/-- Plain models are built exactly if each new one has a draft and they are consistent. -/
theorem exists_buildRegistry_iff {catalogue : LookupCatalogue} {sources : List ModelSource}
    {source : SettingsSource} {lookup : Option RelationLookup}
    (hm : (loadModels sources).outcome = .ok g.models)
    (hg : Generator.make catalogue g.models source lookup = .ok g)
    (hplain : ∀ m ∈ g.models, m.Plain) (hs : g.settings.Plain) :
    (∃ r, (buildRegistry catalogue sources source lookup).outcome = .ok r) ↔
      (∀ m ∈ g.firstModels, ∃ d, (g.draft m).outcome = .ok d) ∧ g.Consistent := by
  constructor
  · rintro ⟨r, h⟩
    obtain ⟨models, g', hm', hg', hd, hr, -⟩ := buildRegistry_realizes h
    rw [hm] at hm'
    cases hm'
    rw [hg] at hg'
    cases hg'
    exact ⟨hd, .of_realizes hr⟩
  · rintro ⟨hd, hc⟩
    have hroot : g.settings.rootTypeName.isHashable = true := by
      obtain ⟨n, hn⟩ := hs.rootName
      rw [hn]
      rfl
    have ha := hc.acceptsAll hplain hroot
    obtain ⟨text, ht⟩ := Generator.exists_fingerprint_of_realizes hplain hs (.of_acceptsAll ha)
    exact ⟨_, buildRegistry_ok_iff.mpr ⟨_, _, hm, hg, hd, ha, text, ht, rfl⟩⟩

/-- A generator for models with the default settings. -/
def Generator.ofModels (models : List Model) : Generator :=
  { models, settings := {}, lookup := .missing }

theorem loadModels_read (models : List Model) :
    (loadModels (models.map .read)).outcome = .ok models := by
  induction models with
  | nil => rfl
  | cons m rest ih =>
    rw [List.map_cons, loadModels]
    exact Traced.bind_eq_ok.mpr ⟨m, rfl, Traced.bind_eq_ok.mpr ⟨rest, ih, rfl⟩⟩

theorem Settings.plain_default : ({} : Settings).Plain := ⟨⟨_, rfl⟩, .inr ⟨_, rfl⟩, .inr ⟨_, rfl⟩⟩

/-- Plain models that have drafts are built if all types of the plan are told apart by their
names. -/
theorem exists_buildRegistry_of_distinct (hplain : ∀ m ∈ models, m.Plain)
    (hdrafts :
      ∀ m ∈ (Generator.ofModels models).firstModels,
        ((Generator.ofModels models).draft m).outcome.isOk = true)
    (hplan :
      (Generator.ofModels models).plan.Pairwise fun t u => (t.name == u.name) = false) :
    ∃ r, (buildRegistry [] (models.map .read) (.given {}) none).outcome = .ok r ∧
      r.find? (.text "Viewer") = some (rootType models {}) := by
  have hd : ∀ m ∈ (Generator.ofModels models).firstModels,
      ∃ d, ((Generator.ofModels models).draft m).outcome = .ok d :=
    fun m hm => exists_of_isOk (hdrafts m hm)
  have hm := loadModels_read models
  have hg : Generator.make [] models (.given {}) none = .ok (Generator.ofModels models) := rfl
  obtain ⟨r, h⟩ :=
    (exists_buildRegistry_iff (g := Generator.ofModels models) hm hg hplain
      Settings.plain_default).mpr ⟨hd, .of_distinct hplan⟩
  obtain ⟨models', g', hm', hg', -, -, hroot⟩ := buildRegistry_realizes h
  have hmodels : models' = models := Except.ok.inj (hm'.symm.trans hm)
  subst hmodels
  have hsame : g' = Generator.ofModels models' := Except.ok.inj (hg'.symm.trans hg)
  rw [hsame] at hroot
  exact ⟨r, h, hroot⟩

/-- An account with a listed status, an address of its own structure and a relation to its
ledger. -/
def accountModel : Model :=
  let statuses : List Value := [.text "open", .text "closed"]
  let address : DeclaredType := .embedded (.mapping [(.text "city", .type .text)]) .null []
  { name := "Account"
    pluralName := "Accounts"
    shared := true
    properties :=
      [(.text "status", { name := .text "status", type := .scalar "string", enum := statuses }),
       (.text "address", { name := .text "address", type := address })]
    relations :=
      [(.text "ledger",
          { name := "ledger", source := "Account", target := some "Ledger", kind := .hasOne })] }

/-- A ledger whose owner is an account or goes by a name. -/
def ledgerModel : Model :=
  { name := "Ledger"
    pluralName := "Ledgers"
    shared := true
    properties :=
      [(.text "owner", { name := .text "owner", type := .reference "Account|string" })] }

def bookkeeping : List ModelSource := [.read accountModel, .read ledgerModel]

theorem accountModel_declares {n : String} {p : Property} (h : accountModel.Declares n p) :
    p ∈ accountModel.properties.map (·.2) ∨
      p = { name := .text "city", type := .scalar "string" } := by
  induction h with
  | own hp => exact .inl hp
  | inside _ hitem hrows hrow ih =>
    rcases ih with ih | rfl
    · simp only [accountModel, List.map_cons, List.map_nil, List.mem_cons, List.not_mem_nil,
        or_false] at ih
      rcases ih with rfl | rfl
      · cases hitem
      · cases hitem
        cases hrows
        rw [List.mem_singleton.mp hrow]
        exact .inr rfl
    · cases hitem

theorem accountModel_plain : accountModel.Plain := by
  refine ⟨⟨⟨by simp [accountModel], by simp [accountModel]⟩, fun hdecl hitem hrows => ?_⟩, .inl rfl,
    fun hdecl => ?_⟩
  · rcases accountModel_declares hdecl with hp | rfl
    · simp only [accountModel, List.map_cons, List.map_nil, List.mem_cons, List.not_mem_nil,
        or_false] at hp
      rcases hp with rfl | rfl
      · cases hitem
      · cases hitem
        cases hrows
        exact ⟨by simp, List.pairwise_singleton _ _⟩
    · cases hitem
  · rcases accountModel_declares hdecl with hp | rfl
    · simp only [accountModel, List.map_cons, List.map_nil, List.mem_cons, List.not_mem_nil,
        or_false] at hp
      rcases hp with rfl | rfl
      · exact ⟨.inl rfl, by simp [Value.IsRemark], fun _ _ _ hitem => by cases hitem⟩
      · refine ⟨.inl rfl, by simp, fun _ _ _ hitem => ?_⟩
        cases hitem
        exact .inl rfl
    · exact ⟨.inl rfl, by simp, fun _ _ _ hitem => by cases hitem⟩

theorem ledgerModel_declares {n : String} {p : Property} (h : ledgerModel.Declares n p) :
    p = { name := .text "owner", type := .reference "Account|string" } := by
  induction h with
  | own hp => exact List.mem_singleton.mp hp
  | inside _ hitem _ _ ih =>
    rw [ih] at hitem
    cases hitem

theorem ledgerModel_plain : ledgerModel.Plain := by
  refine ⟨⟨⟨by simp [ledgerModel], List.pairwise_singleton _ _⟩, fun hdecl hitem _ => ?_⟩, .inl rfl,
    fun hdecl => ?_⟩
  · rw [ledgerModel_declares hdecl] at hitem
    cases hitem
  · rw [ledgerModel_declares hdecl]
    exact ⟨.inl rfl, by simp, fun _ _ _ hitem => by cases hitem⟩

theorem exists_bookkeepingRegistry :
    ∃ r, (buildRegistry [] bookkeeping (.given {}) none).outcome = .ok r := by
  have hplain : ∀ m ∈ [accountModel, ledgerModel], m.Plain := by
    intro m hm
    simp only [List.mem_cons, List.not_mem_nil, or_false] at hm
    rcases hm with rfl | rfl
    · exact accountModel_plain
    · exact ledgerModel_plain
  obtain ⟨r, h, -⟩ :=
    exists_buildRegistry_of_distinct hplain (by decide +kernel) (by decide +kernel)
  exact ⟨r, h⟩

end ModelSchema
