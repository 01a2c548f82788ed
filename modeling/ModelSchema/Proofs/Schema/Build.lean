import ModelSchema.Proofs.Schema.Drafts

/-!
# Building a registry

A build plans to register the root type, then for each model of a new name the types that it brings
(`plan`). It has a result exactly if each of these models has a draft, the types of the plan agree
with each other as they come, and what they export can be written. The result holds the planned
types and nothing else, and is frozen.
-/

namespace ModelSchema

open Procedure

variable {r : Registry} {g g' : Generator}

namespace Registry

/-- A registry has a type that is the same as the given one under its name. -/
def Holds (r : Registry) (t : TypeDescriptor) : Prop :=
  ∃ e, r.find? t.name = some e ∧ e.same t = true

/-- A registry holds the types of a plan and has no others. -/
structure Realizes (r : Registry) (plan : List TypeDescriptor) : Prop where
  distinct : Table.Distinct r.types
  only : ∀ row ∈ r.types, ∃ t ∈ plan, row = (t.name, t)
  holds : ∀ t ∈ plan, r.Holds t

theorem Holds.same {t u : TypeDescriptor} (ht : r.Holds t) (hu : r.Holds u)
    (h : (t.name == u.name) = true) : t.same u = true := by
  obtain ⟨e, he, hs⟩ := ht
  obtain ⟨e', he', hs'⟩ := hu
  have hfind : r.find? t.name = r.find? u.name := Table.find?_congr h r.types
  rw [he, he'] at hfind
  cases hfind
  exact TypeDescriptor.same_euclid hs hs'

theorem Realizes.of_acceptsAll {plan : List TypeDescriptor} (h : ({} : Registry).AcceptsAll plan) :
    (({} : Registry).addAll plan).Realizes plan := by
  refine ⟨distinct_addAll List.Pairwise.nil, fun row hr => ?_, fun t ht => find?_addAll_of_mem h ht⟩
  rcases mem_types_addAll hr with hr | ht
  · cases hr
  · exact ht

/-- A registry that is fixed together with its fingerprint. -/
def sealWith (r : Registry) (text : String) : Registry :=
  { r with frozen := true, fixedFingerprint := some text }

@[simp] theorem fingerprint_sealWith (r : Registry) (text : String) :
    (r.sealWith text).fingerprint = .ok text :=
  rfl

theorem freeze_of_frozen (h : r.frozen = true) : freeze.Ends r (.error .alreadyFrozen) r := by
  apply Ends.bind (ends_get.mpr ⟨rfl, rfl⟩)
  simp [h]

theorem freeze_of_unwritable {e : Failure} (h : r.frozen = false)
    (he : r.computeFingerprint = .error e) : freeze.Ends r (.error e) r := by
  apply Ends.bind (ends_get.mpr ⟨rfl, rfl⟩)
  simp only [h, Bool.false_eq_true, if_false]
  exact ends_bind_error.mpr (.inl (ends_liftM.mpr ⟨he, rfl⟩))

theorem freeze_ends_ok {r' : Registry} {text : String} :
    freeze.Ends r (.ok text) r' ↔
      r.frozen = false ∧ r.computeFingerprint = .ok text ∧ r' = r.sealWith text := by
  simp only [freeze, ends_bind_ok, ends_get, Except.ok.injEq]
  constructor
  · rintro ⟨_, _, ⟨rfl, rfl⟩, h⟩
    split at h
    · simp at h
    · rename_i hz
      simp only [ends_bind_ok, ends_liftM, ends_modify, ends_pure, Traced.outcome_liftM,
        Except.ok.injEq] at h
      obtain ⟨_, _, ⟨ht, rfl⟩, _, _, ⟨-, rfl⟩, _, _, ⟨-, rfl⟩, rfl, rfl⟩ := h
      exact ⟨by simpa using hz, ht, rfl⟩
  · rintro ⟨hz, ht, rfl⟩
    refine ⟨_, _, ⟨rfl, rfl⟩, ?_⟩
    rw [if_neg (by simp [hz])]
    simp only [ends_bind_ok, ends_liftM, ends_modify, ends_pure, Traced.outcome_liftM,
      Except.ok.injEq]
    exact ⟨_, _, ⟨ht, rfl⟩, (), _, ⟨trivial, rfl⟩, (), _, ⟨rfl, rfl⟩, rfl, rfl⟩

theorem freeze_ends_error {r' : Registry} {e : Failure} (h : freeze.Ends r (.error e) r') :
    (r.frozen = true ∨ r.computeFingerprint = .error e) ∧ r' = r := by
  cases hz : r.frozen with
  | true => exact ⟨.inl rfl, (h.unique (freeze_of_frozen hz)).2⟩
  | false =>
    cases ht : r.computeFingerprint with
    | error e' =>
      obtain ⟨hx, hr⟩ := h.unique (freeze_of_unwritable hz ht)
      exact ⟨.inr hx.symm, hr⟩
    | ok text =>
      have hends : freeze.Ends r (.ok text) (r.sealWith text) := freeze_ends_ok.mpr ⟨hz, ht, rfl⟩
      cases (h.unique hends).1

end Registry

namespace Generator

/-- The models of the run that are compiled: the first of each name. -/
def firstModels (g : Generator) : List Model := newModels [] g.models

/-- All types that a run registers, in order. -/
def plan (g : Generator) : List TypeDescriptor :=
  rootType g.models g.settings :: g.firstModels.flatMap g.typesOf

theorem generateRoot_ends_ok {t : TypeDescriptor} :
    generateRoot.Ends g (.ok t) g' ↔
      g.registry.Accepts (rootType g.models g.settings) ∧
        (g.registry.registration (rootType g.models g.settings)).stored = t ∧
          g' = { g with registry := g.registry.add (rootType g.models g.settings) } := by
  simp only [generateRoot, ends_bind_ok, ends_get, ends_pure, onRegistry_ends,
    Registry.register_ends_ok, Except.ok.injEq]
  constructor
  · rintro ⟨_, _, ⟨rfl, rfl⟩, _, _, ⟨_, ⟨ha, rfl, rfl⟩, rfl⟩, rfl, rfl⟩
    exact ⟨ha, rfl, rfl⟩
  · rintro ⟨ha, rfl, rfl⟩
    exact ⟨_, _, ⟨rfl, rfl⟩, _, _, ⟨_, ⟨ha, rfl, rfl⟩, rfl⟩, rfl, rfl⟩

theorem mem_plan {m : Model} {t : TypeDescriptor} (hm : m ∈ g.firstModels) (ht : t ∈ g.typesOf m) :
    t ∈ g.plan :=
  List.mem_cons_of_mem _ (List.mem_flatMap.mpr ⟨m, hm, ht⟩)

theorem mem_plan_of_draft {m : Model} {fields : List (Value × Field)} {types : List TypeDescriptor}
    (hm : m ∈ g.firstModels) (hd : (g.draft m).outcome = .ok (fields, types)) :
    types ++ [m.objectType fields] ⊆ g.plan := by
  intro t ht
  rw [← typesOf_eq hd] at ht
  exact mem_plan hm ht

theorem objectType_mem_plan {m : Model} {fields : List (Value × Field)}
    {types : List TypeDescriptor} (hm : m ∈ g.firstModels)
    (hd : (g.draft m).outcome = .ok (fields, types)) : m.objectType fields ∈ g.plan :=
  mem_plan_of_draft hm hd List.mem_concat_self

/-- A generator that has not done anything. -/
def IsFresh (g : Generator) : Prop := g.registry = {} ∧ g.compiled = []

theorem generateAll_ends_ok {u : Unit} (hg : g.IsFresh) :
    generateAll.Ends g (.ok u) g' ↔
      (∀ m ∈ g.firstModels, ∃ d, (g.draft m).outcome = .ok d) ∧ ({} : Registry).AcceptsAll g.plan ∧
        ∃ text, (({} : Registry).addAll g.plan).computeFingerprint = .ok text ∧
          g' =
            { g with
              registry := (({} : Registry).addAll g.plan).sealWith text
              compiled := g.firstModels.map Model.name } := by
  obtain ⟨models, settings, lookup, _, _⟩ := g
  obtain ⟨rfl, rfl⟩ := hg
  simp only [generateAll, ends_bind_ok, ends_get, ends_liftM, onRegistry_ends, generateRoot_ends_ok,
    plan, Registry.freeze_ends_ok]
  constructor
  · rintro ⟨_, _, ⟨ha, -, rfl⟩, _, _, ⟨he, rfl⟩, _, _, h, _, _, ⟨_, ⟨-, ht, rfl⟩, rfl⟩, -, rfl⟩
    cases he
    obtain ⟨hd, hall, rfl⟩ := (generateObjects_ends_ok (by simp [HoldsCompiled])).mp h
    exact ⟨hd, ⟨ha, hall⟩, _, ht, rfl⟩
  · rintro ⟨hd, ⟨ha, hall⟩, text, ht, rfl⟩
    have hz := Registry.frozen_addAll {} (rootType models settings ::
      (firstModels { models, settings, lookup }).flatMap (typesOf { models, settings, lookup }))
    exact
      ⟨_, _, ⟨ha, rfl, rfl⟩, _, _, ⟨rfl, rfl⟩, (), _,
        (generateObjects_ends_ok (by simp [HoldsCompiled])).mpr ⟨hd, hall, rfl⟩, text, _,
          ⟨_, ⟨hz, ht, rfl⟩, rfl⟩, rfl,
        rfl⟩

theorem make_ok_iff {catalogue : LookupCatalogue} {models : List Model} {source : SettingsSource}
    {lookup : Option RelationLookup} :
    make catalogue models source lookup = .ok g ↔
      ∃ settings chosen, source.load = .ok settings ∧
        (match lookup with
          | some lookup => .ok lookup
          | none => catalogue.select settings.relationLookup) = Except.ok chosen ∧
          g = { models, settings, lookup := chosen } := by
  unfold make
  cases source.load with
  | error e => simp [Bind.bind, Except.bind]
  | ok settings =>
    cases lookup with
    | some lookup => simp [Bind.bind, Except.bind, Pure.pure, Except.pure, eq_comm]
    | none =>
      cases hl : catalogue.select settings.relationLookup <;>
        simp [Bind.bind, Except.bind, Pure.pure, Except.pure, hl, eq_comm]

theorem make_ok {catalogue : LookupCatalogue} {models : List Model} {source : SettingsSource}
    {lookup : Option RelationLookup} (h : make catalogue models source lookup = .ok g) :
    g.IsFresh ∧ g.models = models ∧ source.load = .ok g.settings := by
  obtain ⟨settings, chosen, hs, -, rfl⟩ := make_ok_iff.mp h
  exact ⟨⟨rfl, rfl⟩, rfl, hs⟩

theorem make_with_models {catalogue : LookupCatalogue} {models models' : List Model}
    {source : SettingsSource} {lookup : Option RelationLookup}
    (h : make catalogue models source lookup = .ok g) :
    make catalogue models' source lookup = .ok { g with models := models' } := by
  obtain ⟨settings, chosen, hs, hl, rfl⟩ := make_ok_iff.mp h
  exact make_ok_iff.mpr ⟨settings, chosen, hs, hl, rfl⟩

end Generator

theorem mem_listings {models : List Model} {row : Value × Field} (h : row ∈ listings models) :
    ∃ listed ∈ models, row.2 = .ofListing listed := by
  rcases Table.snd_mem_merge h with ⟨_, hnil, -⟩ | ⟨listing, hl, hs⟩
  · cases hnil
  · obtain ⟨listed, hm, rfl⟩ := List.mem_map.mp hl
    exact ⟨listed, (List.mem_filter.mp hm).1, hs⟩

theorem buildRegistry_ok_iff {catalogue : LookupCatalogue} {sources : List ModelSource}
    {settings : SettingsSource} {lookup : Option RelationLookup} :
    (buildRegistry catalogue sources settings lookup).outcome = .ok r ↔
      ∃ models g,
        (loadModels sources).outcome = .ok models ∧
          Generator.make catalogue models settings lookup = .ok g ∧
          (∀ m ∈ g.firstModels, ∃ d, (g.draft m).outcome = .ok d) ∧
          ({} : Registry).AcceptsAll g.plan ∧
          ∃ text,
            (({} : Registry).addAll g.plan).computeFingerprint = .ok text ∧
              r = (({} : Registry).addAll g.plan).sealWith text := by
  simp only [buildRegistry, Traced.bind_eq_ok, Traced.outcome_liftM]
  constructor
  · rintro ⟨models, hm, g, hg, u, hx, h⟩
    cases h
    have he : Generator.generateAll.Ends g (.ok u) (Generator.generateAll.run g).1 := ⟨rfl, hx⟩
    obtain ⟨hd, ha, text, ht, hf⟩ := (Generator.generateAll_ends_ok (Generator.make_ok hg).1).mp he
    exact ⟨models, g, hm, hg, hd, ha, text, ht, by rw [hf]⟩
  · rintro ⟨models, g, hm, hg, hd, ha, text, ht, rfl⟩
    obtain ⟨hf, hx⟩ :=
      (Generator.generateAll_ends_ok (u := ()) (Generator.make_ok hg).1).mpr ⟨hd, ha, text, ht, rfl⟩
    refine ⟨models, hm, g, hg, (), hx, ?_⟩
    change Except.ok (Generator.generateAll.finalState g).registry = _
    rw [hf]

/-- The root type comes first and is kept as it is. -/
theorem Generator.find?_rootType (g : Generator) :
    (({} : Registry).addAll g.plan).find? g.settings.rootTypeName =
      some (rootType g.models g.settings) := by
  refine Registry.find?_addAll (r := ({} : Registry).add (rootType g.models g.settings)) ?_
  rw [Registry.add_of_free rfl]
  simp [Registry.find?, Table.find?, rootType]

/-- A registry that has been built holds the plan of a generator for the loaded models, each of
which has a draft. -/
theorem buildRegistry_realizes {catalogue : LookupCatalogue} {sources : List ModelSource}
    {settings : SettingsSource} {lookup : Option RelationLookup}
    (h : (buildRegistry catalogue sources settings lookup).outcome = .ok r) :
    ∃ models g,
      (loadModels sources).outcome = .ok models ∧
        Generator.make catalogue models settings lookup = .ok g ∧
        (∀ m ∈ g.firstModels, ∃ d, (g.draft m).outcome = .ok d) ∧ r.Realizes g.plan ∧
        r.find? g.settings.rootTypeName = some (rootType g.models g.settings) := by
  obtain ⟨models, g, hm, hg, hd, ha, text, -, rfl⟩ := buildRegistry_ok_iff.mp h
  obtain ⟨hdistinct, honly, hholds⟩ := Registry.Realizes.of_acceptsAll ha
  exact ⟨models, g, hm, hg, hd, ⟨hdistinct, honly, hholds⟩, g.find?_rootType⟩

end ModelSchema
