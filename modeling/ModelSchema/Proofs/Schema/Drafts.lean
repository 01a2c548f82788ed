import ModelSchema.Proofs.Schema.Compilation
import ModelSchema.Proofs.Schema.Registration
import ModelSchema.Schema.Generator

/-!
# Drafts of models

The draft of a model is what its compilation yields without a registry: its fields and the types
that they need. Compiling the model ends well exactly if there is a draft and the registry accepts
the types of it, and leaves the registry with these types. Main statements: the same for a model
with its own type and for a list of models, of which those whose names are taken are passed over.
-/

namespace ModelSchema.Generator

open Procedure

variable {g g' : Generator} {m : Model} {fields : List (Value × Field)}

/-- The arguments of the fields of relations, empty if they cannot be made. -/
def relationArguments (settings : Settings) : List (Value × Argument) :=
  match connectionArguments settings.relationFilterArgument with
  | .ok arguments => arguments
  | .error _ => []

/-- The rows of the fields of relations. -/
def relationRows (settings : Settings) (relations : List Relation) : List (Value × Field) :=
  relations.map fun relation =>
    (.text relation.name, .ofRelation relation (relationArguments settings))

theorem addRelations_ok_iff {settings : Settings} {relations : List Relation}
    {out : List (Value × Field)} :
    (addRelations settings fields relations).outcome = .ok out ↔
      (relations ≠ [] →
        ∃ arguments, connectionArguments settings.relationFilterArgument = .ok arguments) ∧
        out = Table.merge fields (relationRows settings relations) := by
  induction relations generalizing fields with
  | nil => simp [addRelations, relationRows, Table.merge, eq_comm]
  | cons relation rest ih =>
    simp only [addRelations, compileRelation, Traced.bind_eq_ok, Traced.outcome_report,
      Traced.outcome_pure, Traced.outcome_liftM, Except.ok.injEq, ih]
    constructor
    · rintro ⟨_, ⟨_, -, arguments, ha, rfl⟩, -, rfl⟩
      refine ⟨fun _ => ⟨arguments, ha⟩, ?_⟩
      simp [relationRows, Table.merge, relationArguments, ha]
    · rintro ⟨h, rfl⟩
      obtain ⟨arguments, ha⟩ := h (by simp)
      refine ⟨_, ⟨(), trivial, arguments, ha, rfl⟩, fun _ => ⟨arguments, ha⟩, ?_⟩
      simp [relationRows, Table.merge, relationArguments, ha]

/-- The fields of a model and the types that they need. -/
def draft (g : Generator) (m : Model) : Traced (List (Value × Field) × List TypeDescriptor) := do
  let (rows, types) ← compileAll (compileProperty g.surroundings m.owner) (m.properties.map (·.2))
  let fields ← addRelations g.settings (Table.ofRows rows) (g.exposedRelations m)
  pure (fields, types)

theorem draft_ok_iff {types : List TypeDescriptor} :
    (g.draft m).outcome = .ok (fields, types) ↔
      ∃ rows,
        (compileAll (compileProperty g.surroundings m.owner) (m.properties.map (·.2))).outcome =
          .ok (rows, types) ∧
          (addRelations g.settings (Table.ofRows rows) (g.exposedRelations m)).outcome =
            .ok fields := by
  simp only [draft, Traced.bind_eq_ok, Traced.outcome_pure, Except.ok.injEq, Prod.mk.injEq,
    Prod.exists]
  constructor
  · rintro ⟨rows, ts, hc, fs, hr, rfl, rfl⟩
    exact ⟨rows, hc, hr⟩
  · rintro ⟨rows, hc, hr⟩
    exact ⟨rows, types, hc, fields, hr, rfl, rfl⟩

/-- The properties of a model that has a draft compile, each to what the draft has of it. -/
theorem compiles_of_draft (h : (g.draft m).outcome = .ok (fields, types)) :
    ∃ result : Property → Compiled,
      (∀ q ∈ m.properties.map (·.2), Compiles g.surroundings m.owner q (result q)) ∧
        types = madeTypes result (m.properties.map (·.2)) ∧
          fields = Table.merge (Table.ofRows (fieldRows result (m.properties.map (·.2))))
            (relationRows g.settings (g.exposedRelations m)) := by
  obtain ⟨rows, hc, hr⟩ := draft_ok_iff.mp h
  obtain ⟨hall, rfl, rfl⟩ := compileAll_ok_iff.mp hc
  obtain ⟨-, rfl⟩ := addRelations_ok_iff.mp hr
  refine ⟨_, fun q hq => ?_, rfl, rfl⟩
  obtain ⟨c, hc⟩ := hall q hq
  rw [hc]
  exact .of_compileProperty hc

theorem onRegistry_ends {α : Type} {p : Procedure Registry α} {x : Except Failure α} :
    (onRegistry p).Ends g x g' ↔ ∃ r, p.Ends g.registry x r ∧ { g with registry := r } = g' :=
  ends_onPart

theorem addProperties_ends_ok {o : Owner} {props : List Property} {out : List (Value × Field)} :
    (addProperties o fields props).Ends g (.ok out) g' ↔
      ∃ rows types,
        (compileAll (compileProperty g.surroundings o) props).outcome = .ok (rows, types) ∧
          out = Table.merge fields rows ∧ g.registry.AcceptsAll types ∧
          g' = { g with registry := g.registry.addAll types } := by
  induction props generalizing g fields with
  | nil =>
    simp only [addProperties, ends_pure, compileAll, Traced.outcome_pure, Except.ok.injEq,
      Prod.mk.injEq]
    constructor
    · rintro ⟨rfl, rfl⟩
      exact ⟨[], [], ⟨rfl, rfl⟩, rfl, trivial, rfl⟩
    · rintro ⟨rows, types, ⟨rfl, rfl⟩, rfl, -, rfl⟩
      exact ⟨rfl, rfl⟩
  | cons p props ih =>
    simp only [addProperties, compileAll, ends_bind_ok, ends_get, ends_liftM, onRegistry_ends,
      Registry.merge_ends_ok, Traced.bind_eq_ok, Traced.outcome_pure, Except.ok.injEq,
      Prod.mk.injEq, Prod.exists, ih]
    constructor
    · rintro ⟨_, _, ⟨rfl, rfl⟩, c, _, ⟨hc, rfl⟩, _, _, ⟨_, ⟨ha, rfl⟩, rfl⟩, rows, types, hr,
        rfl, hb, rfl⟩
      refine ⟨_, c.types ++ types, ⟨c, hc, rows, types, hr, rfl, rfl⟩, ?_,
        Registry.acceptsAll_append.mpr ⟨ha, hb⟩, ?_⟩
      · cases c.field <;> rfl
      · rw [Registry.addAll_append]
    · rintro ⟨_, _, ⟨c, hc, rows, types, hr, rfl, rfl⟩, rfl, ha, rfl⟩
      obtain ⟨ha, hb⟩ := Registry.acceptsAll_append.mp ha
      refine ⟨_, _, ⟨rfl, rfl⟩, c, _, ⟨hc, rfl⟩, (), _, ⟨_, ⟨ha, rfl⟩, rfl⟩, rows, types,
        hr, ?_, hb, ?_⟩
      · cases c.field <;> rfl
      · rw [Registry.addAll_append]

theorem modelFields_ends_ok :
    (modelFields m).Ends g (.ok fields) g' ↔
      ∃ types, (g.draft m).outcome = .ok (fields, types) ∧ g.registry.AcceptsAll types ∧
        g' = { g with registry := g.registry.addAll types } := by
  simp only [modelFields, ends_bind_ok, addProperties_ends_ok, ends_get, ends_liftM, draft_ok_iff]
  constructor
  · rintro ⟨_, _, ⟨rows, types, hc, rfl, ha, rfl⟩, _, _, ⟨he, rfl⟩, hr, rfl⟩
    cases he
    exact ⟨types, ⟨rows, hc, hr⟩, ha, rfl⟩
  · rintro ⟨types, ⟨rows, hc, hr⟩, ha, rfl⟩
    exact ⟨_, _, ⟨rows, types, hc, rfl, ha, rfl⟩, _, _, ⟨rfl, rfl⟩, hr, rfl⟩

/-- A compilation of fields that fails has at most added types to the registry. -/
theorem addProperties_ends_error {o : Owner} {props : List Property} {e : Failure}
    (h : (addProperties o fields props).Ends g (.error e) g') :
    ∃ types, g.registry.AcceptsAll types ∧ g' = { g with registry := g.registry.addAll types } := by
  induction props generalizing g fields with
  | nil => simp [addProperties] at h
  | cons p props ih =>
    simp only [addProperties, ends_bind_error, ends_get, ends_liftM, onRegistry_ends, reduceCtorEq,
      false_and, false_or, Except.ok.injEq] at h
    obtain ⟨_, _, ⟨rfl, rfl⟩, ⟨-, rfl⟩
      | ⟨c, _, ⟨-, rfl⟩, ⟨r, hm, rfl⟩ | ⟨_, _, ⟨r, hm, rfl⟩, h⟩⟩⟩ := h
    · exact ⟨[], trivial, rfl⟩
    · obtain ⟨front, _, _, -, ha, rfl, -⟩ := Registry.merge_ends_error hm
      exact ⟨front, ha, rfl⟩
    · obtain ⟨ha, rfl⟩ := Registry.merge_ends_ok.mp hm
      obtain ⟨types, hb, rfl⟩ := ih h
      exact ⟨c.types ++ types, Registry.acceptsAll_append.mpr ⟨ha, hb⟩, by
        rw [Registry.addAll_append]⟩

theorem modelFields_ends_error {e : Failure} (h : (modelFields m).Ends g (.error e) g') :
    ∃ types, g.registry.AcceptsAll types ∧ g' = { g with registry := g.registry.addAll types } := by
  simp only [modelFields, ends_bind_error, ends_get, ends_liftM, reduceCtorEq, false_and, false_or,
    Except.ok.injEq] at h
  obtain h | ⟨_, _, h, _, _, ⟨rfl, rfl⟩, -, rfl⟩ := h
  · exact addProperties_ends_error h
  · obtain ⟨_, types, -, -, ha, rfl⟩ := addProperties_ends_ok.mp h
    exact ⟨types, ha, rfl⟩

/-- The generator after a model has been compiled to the given fields and types. -/
def settle (g : Generator) (m : Model) (fields : List (Value × Field))
    (types : List TypeDescriptor) : Generator :=
  { g with
    registry := g.registry.addAll (types ++ [m.objectType fields])
    compiled := g.compiled ++ [m.name] }

theorem generateObject_ends_ok_of_new {t : TypeDescriptor} (hn : m.name ∉ g.compiled) :
    (generateObject m).Ends g (.ok t) g' ↔
      ∃ fields types,
        (g.draft m).outcome = .ok (fields, types) ∧
          g.registry.AcceptsAll (types ++ [m.objectType fields]) ∧
          ((g.registry.addAll types).registration (m.objectType fields)).stored = t ∧
          g' = g.settle m fields types := by
  have hc : g.compiled.contains m.name = false := by simpa using hn
  simp only [generateObject, ends_bind_ok, ends_get, Except.ok.injEq]
  constructor
  · rintro ⟨_, _, ⟨rfl, rfl⟩, h⟩
    rw [hc] at h
    simp only [Bool.false_eq_true, if_false, ends_bind_ok, ends_modify, ends_liftM, onRegistry_ends,
      ends_pure, Registry.register_ends_ok, modelFields_ends_ok] at h
    obtain ⟨fields, _, ⟨types, hd, ha, rfl⟩, _, _, ⟨-, rfl⟩, _, _, ⟨-, rfl⟩, _, _,
      ⟨_, ⟨hr, rfl, rfl⟩, rfl⟩, ht, rfl⟩ := h
    rw [← Registry.addAll_concat]
    exact ⟨fields, types, hd, Registry.acceptsAll_append.mpr ⟨ha, hr, trivial⟩,
      Except.ok.inj ht, rfl⟩
  · rintro ⟨fields, types, hd, ha, rfl, rfl⟩
    obtain ⟨ha, hr, -⟩ := Registry.acceptsAll_append.mp ha
    refine ⟨_, _, ⟨rfl, rfl⟩, ?_⟩
    rw [hc, settle, Registry.addAll_concat]
    simp only [Bool.false_eq_true, if_false, ends_bind_ok, ends_modify, ends_liftM, onRegistry_ends,
      ends_pure, Registry.register_ends_ok, modelFields_ends_ok]
    exact
      ⟨fields, _, ⟨types, hd, ha, rfl⟩, (), _, ⟨trivial, rfl⟩, (), _, ⟨rfl, rfl⟩, _, _,
        ⟨_, ⟨hr, rfl, rfl⟩, rfl⟩, rfl, rfl⟩

theorem generateObject_ends_of_compiled {x : Except Failure TypeDescriptor}
    (hn : m.name ∈ g.compiled) :
    (generateObject m).Ends g x g' ↔ g.registry.fetch (.text m.name) = x ∧ g = g' := by
  have hc : g.compiled.contains m.name = true := by simpa using hn
  have hr : (generateObject m).Ends g (g.registry.fetch (.text m.name)) g := by
    apply Ends.bind (ends_get.mpr ⟨rfl, rfl⟩)
    rw [hc]
    cases hf : g.registry.fetch (.text m.name) with
    | ok t => simp [ends_bind_ok]
    | error e => simp [ends_bind_error]
  constructor
  · exact hr.unique
  · rintro ⟨rfl, rfl⟩
    exact hr

/-- The types that a model brings into a registry, its own behind those that it needs; none if it
has no draft. -/
def typesOf (g : Generator) (m : Model) : List TypeDescriptor :=
  match (g.draft m).outcome with
  | .ok (fields, types) => types ++ [m.objectType fields]
  | .error _ => []

theorem typesOf_eq {types : List TypeDescriptor} (h : (g.draft m).outcome = .ok (fields, types)) :
    g.typesOf m = types ++ [m.objectType fields] := by
  rw [typesOf, h]

theorem exists_draft_of_mem_typesOf {t : TypeDescriptor} (h : t ∈ g.typesOf m) :
    ∃ fields types,
      (g.draft m).outcome = .ok (fields, types) ∧ g.typesOf m = types ++ [m.objectType fields] := by
  cases hd : (g.draft m).outcome with
  | error e => simp [typesOf, hd] at h
  | ok draft => exact ⟨draft.1, draft.2, rfl, typesOf_eq hd⟩

/-- The models of a list that are compiled: the first of each name that is not taken. -/
def newModels (taken : List String) : List Model → List Model
  | [] => []
  | m :: rest =>
    if m.name ∈ taken then newModels taken rest
    else m :: newModels (taken ++ [m.name]) rest

theorem mem_of_mem_newModels {ms : List Model} {taken : List String} (h : m ∈ newModels taken ms) :
    m ∈ ms ∧ m.name ∉ taken := by
  induction ms generalizing taken with
  | nil => simp [newModels] at h
  | cons first rest ih =>
    rw [newModels] at h
    split at h
    · exact ⟨List.mem_cons_of_mem _ (ih h).1, (ih h).2⟩
    · rcases List.mem_cons.mp h with rfl | h
      · exact ⟨List.mem_cons_self, ‹_›⟩
      · obtain ⟨hm, hn⟩ := ih h
        exact ⟨List.mem_cons_of_mem _ hm, fun ht => hn (List.mem_append_left _ ht)⟩

theorem exists_newModel {ms : List Model} {taken : List String} (h : m ∈ ms) (hn : m.name ∉ taken) :
    ∃ first ∈ newModels taken ms, first.name = m.name := by
  induction ms generalizing taken with
  | nil => simp at h
  | cons head rest ih =>
    rw [newModels]
    by_cases ht : head.name ∈ taken
    · rw [if_pos ht]
      rcases List.mem_cons.mp h with rfl | h
      · exact absurd ht hn
      · exact ih h hn
    · rw [if_neg ht]
      by_cases he : head.name = m.name
      · exact ⟨head, List.mem_cons_self, he⟩
      · rcases List.mem_cons.mp h with rfl | h
        · exact absurd rfl he
        · have hn' : m.name ∉ taken ++ [head.name] := by simp [hn, Ne.symm he]
          obtain ⟨first, hf, hs⟩ := ih h hn'
          exact ⟨first, List.mem_cons_of_mem _ hf, hs⟩

/-- Every compiled name is the name of a registered type. -/
def HoldsCompiled (g : Generator) : Prop :=
  ∀ n ∈ g.compiled, ∃ t, g.registry.find? (.text n) = some t

theorem HoldsCompiled.settle {types : List TypeDescriptor} (h : g.HoldsCompiled)
    (ha : g.registry.AcceptsAll (types ++ [m.objectType fields])) :
    (g.settle m fields types).HoldsCompiled := by
  intro n hn
  rcases List.mem_append.mp hn with hn | hn
  · obtain ⟨t, ht⟩ := h n hn
    exact ⟨t, Registry.find?_addAll ht⟩
  · rw [List.mem_singleton.mp hn]
    obtain ⟨t, ht, -⟩ := Registry.find?_addAll_of_mem ha (List.mem_concat_self)
    exact ⟨t, ht⟩

theorem generateObjects_ends_ok {ms : List Model} {u : Unit} (hc : g.HoldsCompiled) :
    (generateObjects ms).Ends g (.ok u) g' ↔
      (∀ m ∈ newModels g.compiled ms, ∃ d, (g.draft m).outcome = .ok d) ∧
        g.registry.AcceptsAll ((newModels g.compiled ms).flatMap g.typesOf) ∧
          g' =
            { g with
              registry := g.registry.addAll ((newModels g.compiled ms).flatMap g.typesOf)
              compiled := g.compiled ++ (newModels g.compiled ms).map Model.name } := by
  induction ms generalizing g with
  | nil =>
    simp [generateObjects, newModels, Registry.AcceptsAll, Registry.addAll, eq_comm]
  | cons m ms ih =>
    simp only [generateObjects, ends_bind_ok]
    by_cases hn : m.name ∈ g.compiled
    · obtain ⟨t, ht⟩ := hc m.name hn
      have hf : g.registry.fetch (.text m.name) = .ok t := Registry.fetch_ok_iff.mpr ⟨rfl, ht⟩
      simp only [newModels, hn, if_true, generateObject_ends_of_compiled hn, hf]
      constructor
      · rintro ⟨_, _, ⟨-, rfl⟩, h⟩
        exact (ih hc).mp h
      · intro h
        exact ⟨_, _, ⟨rfl, rfl⟩, (ih hc).mpr h⟩
    · simp only [newModels, hn, if_false, generateObject_ends_ok_of_new hn, List.forall_mem_cons,
        List.flatMap_cons, List.map_cons]
      constructor
      · rintro ⟨_, _, ⟨fields, types, hd, ha, -, rfl⟩, h⟩
        obtain ⟨hall, hb, rfl⟩ := (ih (hc.settle ha)).mp h
        rw [typesOf_eq hd, Registry.acceptsAll_append, Registry.addAll_append g.registry
          (types ++ [_])]
        refine ⟨⟨⟨_, hd⟩, hall⟩, ⟨ha, hb⟩, ?_⟩
        rw [settle, List.append_assoc]
        rfl
      · rintro ⟨⟨⟨⟨fields, types⟩, hd⟩, hall⟩, ha, rfl⟩
        rw [typesOf_eq hd] at ha
        obtain ⟨ha, hb⟩ := Registry.acceptsAll_append.mp ha
        refine ⟨_, _, ⟨fields, types, hd, ha, rfl, rfl⟩, (ih (hc.settle ha)).mpr ⟨hall, hb, ?_⟩⟩
        rw [typesOf_eq hd, Registry.addAll_append g.registry (types ++ [_]), settle,
          List.append_assoc]
        rfl

end ModelSchema.Generator
