import ModelSchema.Proofs.Schema.Build

/-!
# Where names clash

A build can fail because a name is taken, but only when it registers a type: nothing that reads
models or settings, compiles a property, or fixes the fingerprint fails in this way. So a build
whose registrations come with names that are told apart from each other does not fail in this way at
all, whatever else it fails of. Main statement: the same for the models of a generator, with the
names of the types that are made for each.
-/

namespace ModelSchema

open Procedure

variable {α β : Type}

/-- Whether a failure says that a name is taken. -/
def Failure.isClash : Failure → Bool
  | .nameTaken .. => true
  | _ => false

/-- An outcome that is no clash of names. -/
def Clashless (x : Except Failure α) : Prop := ∀ e, x = .error e → e.isClash = false

namespace Clashless

theorem of_ok (a : α) : Clashless (.ok a : Except Failure α) := by
  intro e h
  cases h

theorem of_error {e : Failure} (h : e.isClash = false) :
    Clashless (.error e : Except Failure α) := by
  rintro _ ⟨⟩
  exact h

theorem bind {x : Except Failure α} {f : α → Except Failure β} (hx : Clashless x)
    (hf : ∀ a, Clashless (f a)) : Clashless (x.bind f) := by
  cases x with
  | ok a => exact hf a
  | error e => exact of_error (hx e rfl)

theorem map {x : Except Failure α} {f : α → β} (hx : Clashless x) : Clashless (x.map f) := by
  cases x with
  | ok a => exact of_ok (f a)
  | error e => exact of_error (hx e rfl)

theorem traced_bind {x : Traced α} {f : α → Traced β} (hx : Clashless x.outcome)
    (hf : ∀ a, x.outcome = .ok a → Clashless (f a).outcome) : Clashless (x >>= f).outcome := by
  rw [Traced.outcome_bind]
  cases hx' : x.outcome with
  | ok a => exact hf a hx'
  | error e => exact of_error (hx e hx')

end Clashless

theorem Value.elements_clashless (v : Value) : Clashless v.elements := by
  unfold Value.elements
  repeat' split
  all_goals first | exact .of_ok _ | exact .of_error rfl

theorem Value.toSet_clashless (v : Value) : Clashless v.toSet := by
  unfold Value.toSet
  split
  · apply (elements_clashless v).bind
    intro items
    split
    · exact .of_ok _
    · exact .of_error rfl
  · exact .of_ok _

theorem Value.withoutOperation_isClash (v : Value) (name : String) :
    (v.withoutOperation name).isClash = false := by
  unfold Value.withoutOperation
  split
  · rfl
  · split <;> rfl

theorem Value.items_clashless (v : Value) : Clashless v.items := by
  unfold Value.items
  split
  · split
    · exact .of_ok _
    · split
      · exact .of_ok _
      · exact .of_error (withoutOperation_isClash v "items")
  · exact .of_ok _

theorem Value.pairRows_clashless (index : Nat) (rows : List Value) :
    Clashless (Value.pairRows index rows) := by
  induction rows generalizing index with
  | nil => exact .of_ok []
  | cons row rest ih =>
    apply (elements_clashless row).bind
    intro parts
    split
    · split
      · exact (ih (index + 1)).map
      · exact .of_error rfl
    · exact .of_error rfl

theorem Value.optionalRows_clashless (v : Value) : Clashless v.optionalRows := by
  unfold Value.optionalRows Value.rows
  split
  · split
    · exact .of_ok _
    · split
      · exact .of_ok _
      · exact (elements_clashless v).bind (pairRows_clashless 0)
  · exact .of_ok _

theorem DeclaredType.ofMapping_clashless (raw : Value) :
    Clashless (DeclaredType.ofMapping raw) := by
  unfold DeclaredType.ofMapping
  split
  · exact (Value.toSet_clashless _).map
  · exact .of_ok _

mutual

theorem DeclaredType.ofValue_clashless (raw : Value) : Clashless (DeclaredType.ofValue raw) := by
  cases raw with
  | list items => exact ofItems_clashless items
  | tuple items => exact ofItems_clashless items
  | mapping entries => exact ofMapping_clashless (.mapping entries)
  | knot before key after form => exact ofMapping_clashless (.knot before key after form)
  | _ => exact .of_ok _
termination_by structural raw

theorem DeclaredType.ofItems_clashless (items : List Value) :
    Clashless (DeclaredType.ofItems items) := by
  cases items with
  | nil => exact .of_ok _
  | cons first rest => exact (ofValue_clashless first).map
termination_by structural items

end

theorem Property.readEnum_clashless (raw : Value) : Clashless (Property.readEnum raw) := by
  unfold Property.readEnum
  split
  · exact (Value.elements_clashless raw).map
  · exact .of_ok _

theorem Property.ofValue_clashless (name raw : Value) : Clashless (Property.ofValue name raw) := by
  unfold Property.ofValue
  split
  · refine (DeclaredType.ofValue_clashless _).bind fun type => ?_
    exact (Property.readEnum_clashless _).bind fun values => .of_ok _
  · split
    · exact .of_ok _
    · exact (DeclaredType.ofValue_clashless raw).map

theorem Property.ofMapping_clashless (raw : Value) : Clashless (Property.ofMapping raw) := by
  apply (Value.items_clashless raw).bind
  intro entries
  induction entries with
  | nil => exact .of_ok []
  | cons entry rest ih => exact (ofValue_clashless entry.1 entry.2).bind fun p => ih.map

theorem Model.readHidden_clashless (raw : Value) : Clashless (Model.readHidden raw) := by
  unfold Model.readHidden
  split <;> exact Value.toSet_clashless _

theorem Model.readRelations_clashless (model : String) (entries : List (Value × Value)) :
    Clashless (Model.readRelations model entries).outcome := by
  induction entries with
  | nil => exact .of_ok []
  | cons entry rest ih =>
    unfold Model.readRelations
    split
    · exact .traced_bind (.of_ok ()) fun _ _ => ih
    · exact .traced_bind ih fun _ _ => .of_ok _

theorem Model.ofValue_clashless (raw : Value) : Clashless (Model.ofValue raw).outcome := by
  have hname : Clashless (Model.readName raw) := by
    unfold Model.readName
    split
    · split
      · exact .of_error rfl
      · exact .of_ok _
    · exact .of_error rfl
  apply Clashless.traced_bind hname
  intro name _
  apply Clashless.traced_bind (Property.ofMapping_clashless _)
  intro properties _
  apply Clashless.traced_bind (readHidden_clashless raw)
  intro hidden _
  apply Clashless.traced_bind (Value.items_clashless _)
  intro entries _
  exact .traced_bind (readRelations_clashless name entries) fun _ _ => .of_ok _

theorem loadModels_clashless (sources : List ModelSource) :
    Clashless (loadModels sources).outcome := by
  induction sources with
  | nil => exact .of_ok []
  | cons source rest ih =>
    have hload : Clashless source.load.outcome := by
      cases source with
      | described raw => exact Model.ofValue_clashless raw
      | read model => exact .of_ok model
    exact .traced_bind hload fun _ _ => .traced_bind ih fun _ _ => .of_ok _

theorem LookupCatalogue.select_clashless (catalogue : LookupCatalogue) (path : Value) :
    Clashless (catalogue.select path) := by
  unfold LookupCatalogue.select LookupCatalogue.find LookupCatalogue.findMember
  split
  · repeat' split
    all_goals first | exact .of_ok _ | exact .of_error rfl
  · exact .of_ok _

theorem Generator.make_clashless (catalogue : LookupCatalogue) (models : List Model)
    (source : SettingsSource) (lookup : Option RelationLookup) :
    Clashless (Generator.make catalogue models source lookup) := by
  have hload : Clashless source.load := by
    cases source with
    | given settings => exact .of_ok settings
    | configured block => exact (Value.optionalRows_clashless _).map
  apply hload.bind
  intro settings
  cases lookup with
  | some lookup => exact .of_ok _
  | none => exact (LookupCatalogue.select_clashless catalogue _).bind fun _ => .of_ok _

theorem compileScalar_clashless (s : Surroundings) (o : Owner) (p : Property) (f : Field)
    (declared : DeclaredType) : Clashless (compileScalar s o p f declared).outcome := by
  intro e he
  rw [(compileScalar_error he).1]
  rfl

theorem compileReference_clashless (s : Surroundings) (o : Owner) (p : Property) (f : Field)
    (declared : DeclaredType) : Clashless (compileReference s o p f declared).outcome := by
  obtain ⟨c, hc⟩ := exists_compileReference s o p f declared
  rw [hc]
  exact .of_ok c

theorem tooDeep_isClash (s : Surroundings) (o : Owner) (p : Property) :
    (tooDeep s o p).isClash = false := by
  unfold tooDeep Settings.limitFailure?
  split <;> rfl

theorem compileAll_clashless {compile : Property → Traced Compiled}
    (h : ∀ p, Clashless (compile p).outcome) (props : List Property) :
    Clashless (compileAll compile props).outcome := by
  induction props with
  | nil => exact .of_ok _
  | cons p props ih => exact .traced_bind (h p) fun _ _ => .traced_bind ih fun _ _ => .of_ok _

theorem compileWithin_clashless (s : Surroundings) (levels : Nat) (o : Owner) (p : Property) :
    Clashless (compileWithin s levels o p).outcome := by
  induction levels using Nat.strongRecOn generalizing o p with
  | ind levels ih =>
    rw [compileWithin.eq_def]
    split
    · exact .traced_bind (.of_ok ()) fun _ _ => .of_ok _
    · dsimp only
      split
      · exact .of_ok _
      · split
        · split
          · exact compileScalar_clashless s o p _ _
          · apply Clashless.traced_bind (Property.ofMapping_clashless _)
            intro rows _
            split
            · exact .of_ok _
            · split
              · exact .of_error (tooDeep_isClash s o p)
              · refine .traced_bind (compileAll_clashless (fun q => ?_) _) fun _ _ => .of_ok _
                exact ih _ (Nat.lt_succ_self _) _ q
        · split
          · exact compileScalar_clashless s o p _ _
          · exact compileReference_clashless s o p _ _
        · exact compileScalar_clashless s o p _ _

theorem Generator.addRelations_clashless (settings : Settings) (fields : List (Value × Field))
    (relations : List Relation) :
    Clashless (addRelations settings fields relations).outcome := by
  induction relations generalizing fields with
  | nil => exact .of_ok fields
  | cons relation rest ih =>
    refine Clashless.traced_bind ?_ fun f _ => ih _
    refine Clashless.traced_bind (.of_ok ()) fun _ _ => ?_
    refine Clashless.traced_bind ?_ fun _ _ => .of_ok _
    rw [Traced.outcome_liftM, connectionArguments]
    split
    · split
      · exact .of_ok _
      · exact .of_error rfl
    · exact .of_ok _

namespace Registry

variable {r r' : Registry} {t : TypeDescriptor} {ts : List TypeDescriptor} {names : List Value}

/-- A registry has room for names: none of them is taken, and no two are the same. -/
structure HasRoom (r : Registry) (names : List Value) : Prop where
  free : ∀ n ∈ names, r.find? n = none
  distinct : names.Pairwise fun a b => (a == b) = false

theorem HasRoom.left {others : List Value} (h : r.HasRoom (names ++ others)) : r.HasRoom names :=
  ⟨fun n hn => h.free n (List.mem_append_left _ hn), (List.pairwise_append.mp h.distinct).1⟩

/-- The room that is left when types have taken their names. -/
theorem HasRoom.addAll (h : r.HasRoom (ts.map TypeDescriptor.name ++ names)) :
    (r.addAll ts).HasRoom names := by
  obtain ⟨-, hdistinct, hacross⟩ := List.pairwise_append.mp h.distinct
  refine ⟨fun n hn => Table.find?_eq_none_iff.mpr fun row hrow => ?_, hdistinct⟩
  rcases mem_types_addAll hrow with hrow | ⟨t, ht, rfl⟩
  · exact Table.find?_eq_none_iff.mp (h.free n (List.mem_append_right _ hn)) row hrow
  · exact hacross t.name (List.mem_map_of_mem ht) n hn

theorem register_clashless {x : Except Failure Registration} (hfree : r.find? t.name = none)
    (h : (register t).Ends r x r') : Clashless x := by
  cases hz : r.frozen with
  | true =>
    rw [(h.unique (register_of_frozen hz)).1]
    exact .of_error rfl
  | false =>
    cases hh : t.name.isHashable with
    | false =>
      rw [(h.unique (register_of_unhashable hz hh)).1]
      exact .of_error rfl
    | true =>
      rw [(h.unique (register_of_free hz hh hfree)).1]
      exact .of_ok _

theorem merge_clashless {x : Except Failure Unit} (hroom : r.HasRoom (ts.map TypeDescriptor.name))
    (h : (merge ts).Ends r x r') : Clashless x := by
  rintro e rfl
  obtain ⟨front, t, back, rfl, hfront, ht⟩ := merge_stops h
  obtain ⟨-, rfl⟩ := merge_ends_ok.mp hfront
  rw [List.map_append] at hroom
  have hfree := hroom.addAll.free t.name List.mem_cons_self
  exact register_clashless hfree ht e rfl

theorem fetch_clashless (r : Registry) (name : Value) : Clashless (r.fetch name) := by
  unfold fetch lookup
  split
  · refine (Clashless.of_ok _).bind fun found => ?_
    split
    · exact .of_ok _
    · exact .of_error rfl
  · exact .of_error rfl

theorem freeze_clashless {x : Except Failure String} (h : freeze.Ends r x r') : Clashless x := by
  rintro e rfl
  cases hz : r.frozen with
  | true =>
    cases (h.unique (freeze_of_frozen hz)).1
    rfl
  | false =>
    rcases (freeze_ends_error h).1 with hz' | hwrite
    · rw [hz] at hz'
      cases hz'
    · unfold computeFingerprint canonicalText at hwrite
      split at hwrite
      · cases hwrite
      · rename_i failure _
        cases hwrite
        cases failure <;> rfl

end Registry

namespace Generator

variable {g g' : Generator} {m : Model} {o : Owner} {fields : List (Value × Field)}

/-- The types that are made for the properties of a model, as far as these compile. -/
def minted (g : Generator) (m : Model) : List TypeDescriptor :=
  madeTypes (fun p => .ofOutcome (compileProperty g.surroundings m.owner p).outcome)
    (m.properties.map (·.2))

/-- The names that a model takes: those of the types that are made for it, and its own. -/
def takenNames (g : Generator) (m : Model) : List Value :=
  (g.minted m).map TypeDescriptor.name ++ [.text m.name]

theorem types_of_draft {types : List TypeDescriptor}
    (h : (g.draft m).outcome = .ok (fields, types)) : types = g.minted m := by
  obtain ⟨rows, hc, -⟩ := draft_ok_iff.mp h
  exact (compileAll_ok_iff.mp hc).2.2

theorem addProperties_clashless {props : List Property} {x : Except Failure (List (Value × Field))}
    (hroom : g.registry.HasRoom ((madeTypes (fun p => .ofOutcome
      (compileProperty g.surroundings o p).outcome) props).map TypeDescriptor.name))
    (h : (addProperties o fields props).Ends g x g') : Clashless x := by
  rintro e rfl
  induction props generalizing g fields with
  | nil => simp [addProperties] at h
  | cons p props ih =>
    simp only [addProperties, ends_bind_error, ends_get, ends_liftM, onRegistry_ends, reduceCtorEq,
      false_and, false_or, Except.ok.injEq] at h
    obtain ⟨_, _, ⟨rfl, rfl⟩, ⟨hp, rfl⟩ | ⟨c, _, ⟨hp, rfl⟩, h⟩⟩ := h
    · exact compileWithin_clashless _ _ o p e hp
    · have hmade : madeTypes (fun p => .ofOutcome (compileProperty g.surroundings o p).outcome)
          (p :: props) = c.types ++
            madeTypes (fun p => .ofOutcome (compileProperty g.surroundings o p).outcome) props := by
        rw [madeTypes, List.flatMap_cons, hp]
        rfl
      rw [hmade, List.map_append] at hroom
      rcases h with ⟨r, hm, rfl⟩ | ⟨_, _, ⟨r, hm, rfl⟩, h⟩
      · exact Registry.merge_clashless hroom.left hm e rfl
      · obtain ⟨-, rfl⟩ := Registry.merge_ends_ok.mp hm
        exact ih hroom.addAll h

theorem modelFields_clashless {x : Except Failure (List (Value × Field))}
    (hroom : g.registry.HasRoom ((g.minted m).map TypeDescriptor.name))
    (h : (modelFields m).Ends g x g') : Clashless x := by
  rintro e rfl
  simp only [modelFields, ends_bind_error, ends_get, ends_liftM, reduceCtorEq, false_and, false_or,
    Except.ok.injEq] at h
  obtain h | ⟨fields, _, -, _, _, ⟨rfl, rfl⟩, hr, -⟩ := h
  · exact addProperties_clashless hroom h e rfl
  · exact addRelations_clashless _ fields _ e hr

theorem generateObject_clashless {x : Except Failure TypeDescriptor}
    (hroom : m.name ∉ g.compiled → g.registry.HasRoom (g.takenNames m))
    (h : (generateObject m).Ends g x g') : Clashless x := by
  by_cases hn : m.name ∈ g.compiled
  · rw [← ((generateObject_ends_of_compiled hn).mp h).1]
    exact g.registry.fetch_clashless _
  rintro e rfl
  have hc : g.compiled.contains m.name = false := by simpa using hn
  simp only [generateObject, ends_bind_error, ends_get, reduceCtorEq, false_and, false_or,
    Except.ok.injEq] at h
  obtain ⟨_, _, ⟨rfl, rfl⟩, h⟩ := h
  rw [hc] at h
  simp only [Bool.false_eq_true, if_false, ends_bind_error, ends_modify, ends_liftM,
    onRegistry_ends, ends_pure, reduceCtorEq, false_and, and_false, exists_false, or_false,
    false_or, Traced.outcome_report] at h
  rcases h with h | ⟨fields, _, hf, _, _, ⟨-, rfl⟩, _, _, ⟨-, rfl⟩, r, hr, rfl⟩
  · exact modelFields_clashless (hroom hn).left h e rfl
  · obtain ⟨types, hd, -, rfl⟩ := modelFields_ends_ok.mp hf
    rw [types_of_draft hd] at hr
    have hfree := (hroom hn).addAll.free (.text m.name) List.mem_cons_self
    exact Registry.register_clashless hfree hr e rfl

theorem generateObjects_clashless {ms : List Model} {x : Except Failure Unit}
    (hroom : g.registry.HasRoom ((newModels g.compiled ms).flatMap g.takenNames))
    (h : (generateObjects ms).Ends g x g') : Clashless x := by
  rintro e rfl
  induction ms generalizing g with
  | nil => simp [generateObjects] at h
  | cons m ms ih =>
    rw [newModels] at hroom
    rcases ends_bind_error.mp h with h | ⟨t, next, hm, h⟩
    · refine generateObject_clashless (fun hn => ?_) h e rfl
      rw [if_neg hn, List.flatMap_cons] at hroom
      exact hroom.left
    · by_cases hn : m.name ∈ g.compiled
      · obtain ⟨-, rfl⟩ := (generateObject_ends_of_compiled hn).mp hm
        rw [if_pos hn] at hroom
        exact ih hroom h
      · obtain ⟨fields, types, hd, -, -, rfl⟩ := (generateObject_ends_ok_of_new hn).mp hm
        rw [if_neg hn, List.flatMap_cons, takenNames, ← types_of_draft hd] at hroom
        have hnames : types.map TypeDescriptor.name ++ [.text m.name] =
            (types ++ [m.objectType fields]).map TypeDescriptor.name := by
          rw [List.map_append]
          rfl
        rw [hnames] at hroom
        exact ih hroom.addAll h

/-- The names that a run takes, in order. -/
def plannedNames (g : Generator) : List Value :=
  g.settings.rootTypeName :: g.firstModels.flatMap g.takenNames

theorem generateAll_clashless {x : Except Failure Unit} (hg : g.IsFresh)
    (hdistinct : g.plannedNames.Pairwise fun a b => (a == b) = false)
    (h : generateAll.Ends g x g') : Clashless x := by
  obtain ⟨models, settings, lookup, _, _⟩ := g
  obtain ⟨rfl, rfl⟩ := hg
  rintro e rfl
  have hroom : ({} : Registry).HasRoom
      ([rootType models settings].map TypeDescriptor.name ++
        (newModels [] models).flatMap (takenNames { models, settings, lookup })) :=
    ⟨fun n _ => rfl, hdistinct⟩
  rcases ends_bind_error.mp h with h | ⟨t, g₁, hroot, h⟩
  · simp only [generateRoot, ends_bind_error, ends_get, ends_pure, onRegistry_ends, reduceCtorEq,
      false_and, and_false, exists_false, or_false, false_or, Except.ok.injEq] at h
    obtain ⟨_, _, ⟨rfl, rfl⟩, r, hr, -⟩ := h
    exact Registry.register_clashless rfl hr e rfl
  obtain ⟨-, -, rfl⟩ := generateRoot_ends_ok.mp hroot
  simp only [ends_bind_error, ends_get, ends_liftM, onRegistry_ends, reduceCtorEq, false_and,
    false_or, Except.ok.injEq, Traced.outcome_report, and_false, exists_false, or_false] at h
  obtain ⟨_, _, ⟨rfl, rfl⟩, h | ⟨_, _, -, r, hr, -⟩⟩ := h
  · exact generateObjects_clashless hroom.addAll h e rfl
  · exact Registry.freeze_clashless hr e rfl

end Generator

/-- A build does not fail for want of a name if the names that it takes are told apart. -/
theorem buildRegistry_clashless {catalogue : LookupCatalogue} {sources : List ModelSource}
    {source : SettingsSource} {lookup : Option RelationLookup}
    (hdistinct : ∀ models g, (loadModels sources).outcome = .ok models →
      Generator.make catalogue models source lookup = .ok g →
        g.plannedNames.Pairwise fun a b => (a == b) = false) :
    Clashless (buildRegistry catalogue sources source lookup).outcome := by
  apply Clashless.traced_bind (loadModels_clashless sources)
  intro models hm
  apply Clashless.traced_bind (Generator.make_clashless catalogue models source lookup)
  intro g hg
  refine Clashless.traced_bind ?_ fun _ _ => .of_ok _
  exact Generator.generateAll_clashless (Generator.make_ok hg).1 (hdistinct models g hm hg)
    (Procedure.ends_self Generator.generateAll g)

end ModelSchema
