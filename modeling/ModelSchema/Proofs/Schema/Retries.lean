import ModelSchema.Proofs.Schema.Build

/-!
# Calls that fail and are made again

A generator may be called in any order and again after a failure. A call that compiles a model takes
note of the name before it registers the type of the model. If the registry refuses the type, the
name stays noted, and what the generator gives for it from then on is whatever the registry has
under the name. Main statement: a noted name stands for the type that was compiled under it exactly
if the registry had room for that type or had it already.
-/

namespace ModelSchema

open Procedure

variable {r r' : Registry} {g g' : Generator} {m : Model} {t : TypeDescriptor}

/-- A registry only gains types, and none once it is frozen. -/
structure Registry.Grows (r r' : Registry) : Prop where
  keeps : r.types <+: r'.types
  frozen : r.frozen = true → r'.frozen = true ∧ r'.types = r.types

namespace Registry.Grows

theorem refl (r : Registry) : r.Grows r := ⟨List.prefix_rfl, fun h => ⟨h, rfl⟩⟩

theorem trans {r'' : Registry} (h : r.Grows r') (h' : r'.Grows r'') : r.Grows r'' := by
  constructor
  · exact h.keeps.trans h'.keeps
  · intro hz
    obtain ⟨hz', ht⟩ := h.frozen hz
    obtain ⟨hz'', ht'⟩ := h'.frozen hz'
    exact ⟨hz'', ht'.trans ht⟩

theorem add (h : r.Accepts t) : r.Grows (r.add t) :=
  ⟨types_prefix_add r t, fun hz => by simp [h.unfrozen] at hz⟩

theorem addAll {types : List TypeDescriptor} (h : r.AcceptsAll types) :
    r.Grows (r.addAll types) := by
  induction types generalizing r with
  | nil => exact refl r
  | cons t types ih => exact (add h.1).trans (ih h.2)

theorem holds (h : r.Grows r') (ht : r.Holds t) : r'.Holds t := by
  obtain ⟨e, he, hs⟩ := ht
  exact ⟨e, Table.find?_of_prefix h.keeps he, hs⟩

end Registry.Grows

theorem Registry.freeze_grows {x : Except Failure String} (h : Registry.freeze.Ends r x r') :
    r.Grows r' := by
  cases x with
  | ok text =>
    obtain ⟨hz, -, rfl⟩ := Registry.freeze_ends_ok.mp h
    exact ⟨List.prefix_rfl, fun h => by simp [hz] at h⟩
  | error e =>
    rw [(Registry.freeze_ends_error h).2]
    exact .refl r

theorem Registry.register_grows {x : Except Failure Registration}
    (h : (Registry.register t).Ends r x r') : r.Grows r' := by
  cases x with
  | ok reg =>
    obtain ⟨ha, -, rfl⟩ := Registry.register_ends_ok.mp h
    exact .add ha
  | error e =>
    rw [(Registry.register_ends_error h).2]
    exact .refl r

namespace Generator

inductive Call where
  | root
  | object (m : Model)
  | freeze

/-- The generator after a call, which may fail. -/
def next (g : Generator) : Call → Generator
  | .root => generateRoot.finalState g
  | .object m => (generateObject m).finalState g
  | .freeze => (onRegistry Registry.freeze).finalState g

/-- The generator after calls, each of which may fail. -/
def after (g : Generator) : List Call → Generator
  | [] => g
  | call :: rest => (g.next call).after rest

/-- A name that is noted: the model, its compiled fields, and the registry to which its type is
given. -/
structure Mark where
  model : Model
  fields : List (Value × Field)
  registry : Registry

def Mark.type (k : Mark) : TypeDescriptor := k.model.objectType k.fields

/-- The registry has room for the type of a noted model, or has it already. -/
def Mark.Admitted (k : Mark) : Prop :=
  (k.registry.frozen = false ∧ k.registry.find? k.type.name = none) ∨ k.registry.Holds k.type

/-- The name that a call notes, if it notes one. -/
def mark? (g : Generator) : Call → Option Mark
  | .object m =>
    if m.name ∈ g.compiled then none
    else match ((modelFields m).run g).2.outcome with
      | .ok fields => some ⟨m, fields, ((modelFields m).finalState g).registry⟩
      | .error _ => none
  | _ => none

/-- The names that calls note, in order. -/
def marks (g : Generator) : List Call → List Mark
  | [] => []
  | call :: rest => (g.mark? call).toList ++ (g.next call).marks rest

/-- How a generator comes after another if the given name, at most, was noted in between. -/
structure Follows (g g' : Generator) (noted : List Mark) : Prop where
  models : g'.models = g.models
  settings : g'.settings = g.settings
  compiled : g'.compiled = g.compiled ++ noted.map fun k => k.model.name
  grows : g.registry.Grows g'.registry
  drafted : ∀ k ∈ noted, ∃ types, (g.draft k.model).outcome = .ok (k.fields, types)
  since : ∀ k ∈ noted, k.registry.Grows g'.registry
  admitted : ∀ k ∈ noted, k.Admitted → g'.registry.Holds k.type

theorem Follows.of_registry (h : g.registry.Grows r) : g.Follows { g with registry := r } [] :=
  ⟨rfl, rfl, by simp, h, by simp, by simp, by simp⟩

theorem generateRoot_follows : g.Follows (generateRoot.finalState g) [] := by
  have h := ends_self generateRoot g
  generalize generateRoot.finalState g = g' at h
  generalize (generateRoot.run g).2.outcome = x at h
  cases x with
  | ok t =>
    obtain ⟨ha, -, rfl⟩ := generateRoot_ends_ok.mp h
    exact .of_registry (.add ha)
  | error e =>
    simp only [generateRoot, ends_bind_error, ends_get, ends_pure, onRegistry_ends, reduceCtorEq,
      false_and, and_false, exists_false, or_false, false_or, Except.ok.injEq] at h
    obtain ⟨_, _, ⟨rfl, rfl⟩, r, hr, rfl⟩ := h
    exact .of_registry (Registry.register_grows hr)

theorem freeze_follows : g.Follows ((onRegistry Registry.freeze).finalState g) [] := by
  obtain ⟨r, hr, hg⟩ := onRegistry_ends.mp (ends_self (onRegistry Registry.freeze) g)
  rw [← hg]
  exact .of_registry (Registry.freeze_grows hr)

/-- A call for a model of a new name ends where the compilation of its fields fails, or else with
the registration of its type, when the name is noted already. -/
theorem generateObject_ends_of_new {x : Except Failure TypeDescriptor} (hn : m.name ∉ g.compiled)
    (h : (generateObject m).Ends g x g') :
    (∃ e, (modelFields m).Ends g (.error e) g') ∨
      ∃ fields types r y, (g.draft m).outcome = .ok (fields, types) ∧ g.registry.AcceptsAll types ∧
        (Registry.register (m.objectType fields)).Ends (g.registry.addAll types) y r ∧
          g' = { g with registry := r, compiled := g.compiled ++ [m.name] } := by
  have hc : g.compiled.contains m.name = false := by simpa using hn
  cases x with
  | ok t =>
    obtain ⟨fields, types, hd, ha, -, rfl⟩ := (generateObject_ends_ok_of_new hn).mp h
    obtain ⟨ha, hr, -⟩ := Registry.acceptsAll_append.mp ha
    refine .inr ⟨fields, types, _, _, hd, ha, Registry.register_of_accepts hr, ?_⟩
    rw [settle, Registry.addAll_concat]
  | error e =>
    simp only [generateObject, ends_bind_error, ends_get, reduceCtorEq, false_and, false_or,
      Except.ok.injEq] at h
    obtain ⟨_, _, ⟨rfl, rfl⟩, h⟩ := h
    rw [hc] at h
    simp only [Bool.false_eq_true, if_false, ends_bind_error, ends_modify, ends_liftM,
      onRegistry_ends, ends_pure, reduceCtorEq, false_and, and_false, exists_false, or_false,
      false_or, Traced.outcome_report] at h
    rcases h with h | ⟨fields, _, hf, _, _, ⟨-, rfl⟩, _, _, ⟨-, rfl⟩, r, hr, rfl⟩
    · exact .inl ⟨e, h⟩
    · obtain ⟨types, hd, ha, rfl⟩ := modelFields_ends_ok.mp hf
      exact .inr ⟨fields, types, r, _, hd, ha, hr, rfl⟩

theorem mark?_of_draft {fields : List (Value × Field)} {types : List TypeDescriptor}
    (hn : m.name ∉ g.compiled) (hd : (g.draft m).outcome = .ok (fields, types))
    (ha : g.registry.AcceptsAll types) :
    g.mark? (.object m) = some ⟨m, fields, g.registry.addAll types⟩ := by
  obtain ⟨hg, hx⟩ := modelFields_ends_ok.mpr ⟨types, hd, ha, rfl⟩
  rw [mark?, if_neg hn, hx, hg]

theorem generateObject_follows (m : Model) :
    g.Follows ((generateObject m).finalState g) (g.mark? (.object m)).toList := by
  by_cases hn : m.name ∈ g.compiled
  · have hsame := ((generateObject_ends_of_compiled hn).mp (ends_self (generateObject m) g)).2
    rw [← hsame, mark?, if_pos hn]
    exact .of_registry (.refl _)
  · rcases generateObject_ends_of_new hn (ends_self (generateObject m) g) with
      ⟨e, hf⟩ | ⟨fields, types, r, y, hd, ha, hr, hg⟩
    · obtain ⟨types, ha, hg⟩ := modelFields_ends_error hf
      rw [mark?, if_neg hn, hf.2, hg]
      exact .of_registry (.addAll ha)
    · have hgrows := Registry.register_grows hr
      rw [hg, mark?_of_draft hn hd ha]
      refine ⟨rfl, rfl, rfl, (Registry.Grows.addAll ha).trans hgrows, ?_, ?_, ?_⟩
      · rintro k hk
        rw [List.mem_singleton.mp hk]
        exact ⟨types, hd⟩
      · rintro k hk
        rw [List.mem_singleton.mp hk]
        exact hgrows
      · rintro k hk hadm
        rw [List.mem_singleton.mp hk] at hadm ⊢
        rcases hadm with ⟨hz, hfree⟩ | hheld
        · have hends := Registry.register_of_free hz rfl hfree
          rw [(hr.unique hends).2, ← Registry.add_of_free hfree]
          exact Registry.find?_add_self (Registry.accepts_of_free hz rfl hfree)
        · exact hgrows.holds hheld

theorem next_follows (g : Generator) (call : Call) :
    g.Follows (g.next call) (g.mark? call).toList := by
  cases call with
  | root => exact generateRoot_follows
  | object m => exact generateObject_follows m
  | freeze => exact freeze_follows

theorem draft_congr (hm : g'.models = g.models) (hs : g'.settings = g.settings) (m : Model) :
    g'.draft m = g.draft m := by
  obtain ⟨models, settings, _, _, _⟩ := g
  obtain ⟨models', settings', _, _, _⟩ := g'
  cases hm
  cases hs
  rfl

theorem Follows.trans {g'' : Generator} {noted noted' : List Mark} (h : g.Follows g' noted)
    (h' : g'.Follows g'' noted') : g.Follows g'' (noted ++ noted') := by
  refine ⟨h'.models.trans h.models, h'.settings.trans h.settings, ?_,
    h.grows.trans h'.grows, ?_, ?_, ?_⟩
  · rw [h'.compiled, h.compiled, List.map_append, List.append_assoc]
  · intro k hk
    rcases List.mem_append.mp hk with hk | hk
    · exact h.drafted k hk
    · rw [← draft_congr h.models h.settings]
      exact h'.drafted k hk
  · intro k hk
    rcases List.mem_append.mp hk with hk | hk
    · exact (h.since k hk).trans h'.grows
    · exact h'.since k hk
  · intro k hk hadm
    rcases List.mem_append.mp hk with hk | hk
    · exact h'.grows.holds (h.admitted k hk hadm)
    · exact h'.admitted k hk hadm

/-- What calls leave alone and what they change. -/
theorem after_follows (g : Generator) (calls : List Call) :
    g.Follows (g.after calls) (g.marks calls) := by
  induction calls generalizing g with
  | nil => exact .of_registry (.refl _)
  | cons call rest ih => exact (next_follows g call).trans (ih (g.next call))

theorem Mark.not_holds {k : Mark} (hk : ¬ k.Admitted) (hr : k.registry.Grows r) :
    ¬ r.Holds k.type := by
  rintro ⟨e, he, hs⟩
  apply hk
  cases hf : k.registry.find? k.type.name with
  | some e' =>
    have he' : r.find? k.type.name = some e' := Table.find?_of_prefix hr.keeps hf
    rw [he'] at he
    cases he
    exact .inr ⟨e, hf, hs⟩
  | none =>
    cases hz : k.registry.frozen with
    | false => exact .inl ⟨hz, hf⟩
    | true =>
      rw [Registry.find?, (hr.frozen hz).2] at he
      rw [Registry.find?, he] at hf
      cases hf

theorem Follows.holds_iff {noted : List Mark} {k : Mark} (h : g.Follows g' noted) (hk : k ∈ noted) :
    g'.registry.Holds k.type ↔ k.Admitted := by
  constructor
  · intro hheld
    by_cases hadm : k.Admitted
    · exact hadm
    · exact absurd hheld (Mark.not_holds hadm (h.since k hk))
  · exact h.admitted k hk

theorem fetch_of_mark {k : Mark} (hname : k.model.name = m.name) :
    (g.registry.Holds k.type ∧ ∃ t, g.registry.fetch (.text m.name) = .ok t ∧
      t.same k.type = true) ∨
      (¬ g.registry.Holds k.type ∧
         (g.registry.fetch (.text m.name) = .error .missingKey ∨
            ∃ t, g.registry.fetch (.text m.name) = .ok t ∧ t.same k.type = false)) := by
  have hkey : k.type.name = .text m.name := by rw [← hname]; rfl
  rw [Registry.Holds, hkey]
  cases hf : g.registry.find? (.text m.name) with
  | none =>
    right
    refine ⟨by simp, .inl ?_⟩
    simp [Registry.fetch, Registry.lookup, hf, Value.isHashable, Except.bind]
  | some e =>
    have hfetch : g.registry.fetch (.text m.name) = .ok e := Registry.fetch_ok_iff.mpr ⟨rfl, hf⟩
    cases hs : e.same k.type with
    | true => exact .inl ⟨⟨e, rfl, hs⟩, e, hfetch, hs⟩
    | false =>
      right
      refine ⟨?_, .inr ⟨e, hfetch, hs⟩⟩
      rintro ⟨e', he', hs'⟩
      cases he'
      rw [hs] at hs'
      cases hs'

/-- After calls in any order the noted names are those of the models that were compiled, each with
fields of its draft. The registry holds what was compiled under a name exactly if it was admitted.
Then that is what a further call gives; otherwise a further call fails for want of the name or gives
another type. The first call for a name that gives a type gives the one of the model. -/
theorem noted_iff_admitted (models : List Model) (settings : Settings) (lookup : RelationLookup)
    (registry : Registry) (calls : List Call) :
    let start : Generator := { models, settings, lookup, registry }
    let last := start.after calls
    last.compiled = (start.marks calls).map (fun k => k.model.name) ∧
      (∀ k ∈ start.marks calls, (∃ types, (start.draft k.model).outcome = .ok (k.fields, types)) ∧
        (last.registry.Holds k.type ↔ k.Admitted)) ∧
      ∀ m x g', (generateObject m).Ends last x g' →
        (m.name ∉ last.compiled → ∀ t, x = .ok t →
          ∃ fields types, (start.draft m).outcome = .ok (fields, types) ∧
            t.same (m.objectType fields) = true) ∧
        ∀ k ∈ start.marks calls, k.model.name = m.name →
          (k.Admitted → ∃ t, x = .ok t ∧ t.same k.type = true) ∧
          (¬ k.Admitted → x = .error .missingKey ∨ ∃ t, x = .ok t ∧ t.same k.type = false) := by
  intro start last
  have hfollows : start.Follows last (start.marks calls) := after_follows start calls
  have hcompiled : last.compiled = (start.marks calls).map fun k => k.model.name := by
    rw [hfollows.compiled]
    rfl
  refine ⟨hcompiled, ?_, ?_⟩
  · intro k hk
    exact ⟨hfollows.drafted k hk, hfollows.holds_iff hk⟩
  intro m x g' hends
  constructor
  · rintro hn t rfl
    obtain ⟨fields, types, hd, ha, ht, -⟩ := (generateObject_ends_ok_of_new hn).mp hends
    rw [draft_congr hfollows.models hfollows.settings] at hd
    refine ⟨fields, types, hd, ?_⟩
    rw [← ht]
    exact Registry.registration_same (Registry.acceptsAll_append.mp ha).2.1
  · intro k hk hname
    have hnoted : m.name ∈ last.compiled := by
      rw [hcompiled, ← hname]
      exact List.mem_map_of_mem hk
    have hx := ((generateObject_ends_of_compiled hnoted).mp hends).1
    rw [← hx, ← hfollows.holds_iff hk]
    rcases fetch_of_mark (g := last) hname with ⟨hheld, hfetch⟩ | ⟨hheld, hfetch⟩
    · exact ⟨fun _ => hfetch, fun h => absurd hheld h⟩
    · exact ⟨fun h => absurd h hheld, fun _ => hfetch⟩

/-- A model that bears the default name of the root type. -/
def rootNamesake : Model := { name := "Viewer", pluralName := "Viewers" }

/-- The name of a model that is refused is noted all the same: a further call gives the root type in
its place, or fails for want of the name if the registry was frozen. -/
theorem refused_name_is_noted :
    let start : Generator := { models := [rootNamesake], settings := {}, lookup := .missing }
    let clashed := start.after [.root, .object rootNamesake]
    let frozen := start.after [.freeze, .object rootNamesake]
    ("Viewer" ∈ clashed.compiled ∧
        (clashed.registry.find? (.text "Viewer")).map TypeDescriptor.input = some false ∧
          ((generateObject rootNamesake).run clashed).2.outcome.toOption.map TypeDescriptor.input =
            some false) ∧
      "Viewer" ∈ frozen.compiled ∧ (frozen.registry.find? (.text "Viewer")).isNone ∧
        (match ((generateObject rootNamesake).run frozen).2.outcome with
          | .error .missingKey => true
          | _ => false) = true := by
  decide +kernel

end Generator

end ModelSchema
