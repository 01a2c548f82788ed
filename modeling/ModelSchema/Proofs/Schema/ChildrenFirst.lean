import ModelSchema.Proofs.Schema.PostOrder
import ModelSchema.Proofs.Schema.References

/-!
# Children before their parents

A type that is made for a field stands in front of the type that has the field: among the types
made for one property because these come in post-order, in the plan of a build because a model
comes behind what its properties need, and in the registry because that keeps each name where it
first came. Main statement: the post-order of what is made for a property, with this order of the
names in each finished registry.
-/

namespace ModelSchema

variable {α : Type} {types more : List TypeDescriptor} {t : TypeDescriptor} {r : Registry}
  {g : Generator} {m : Model}

/-- The types that were made for the fields of a type are among the names. -/
def TypeDescriptor.NestedIn (names : List Value) (t : TypeDescriptor) : Prop :=
  ∀ row ∈ t.fields, ∀ n, row.2.nestedTypeName = some n → .text n ∈ names

/-- Each type of a list stands behind those that were made for its fields. -/
inductive ChildrenFirst : List TypeDescriptor → Prop
  | nil : ChildrenFirst []
  | concat {types : List TypeDescriptor} {t : TypeDescriptor} : ChildrenFirst types →
    t.NestedIn (types.map TypeDescriptor.name) → ChildrenFirst (types ++ [t])

theorem TypeDescriptor.NestedIn.mono {names names' : List Value} (h : t.NestedIn names)
    (hsub : names ⊆ names') : t.NestedIn names' :=
  fun row hrow n hn => hsub (h row hrow n hn)

namespace ChildrenFirst

theorem append (h : ChildrenFirst types) (h' : ChildrenFirst more) :
    ChildrenFirst (types ++ more) := by
  induction h' with
  | nil =>
    rw [List.append_nil]
    exact h
  | concat _ ht ih =>
    rw [← List.append_assoc]
    apply ih.concat
    apply ht.mono
    rw [List.map_append]
    exact List.subset_append_right _ _

theorem flatMap {f : α → List TypeDescriptor} {xs : List α} (h : ∀ x ∈ xs, ChildrenFirst (f x)) :
    ChildrenFirst (xs.flatMap f) := by
  induction xs with
  | nil => exact .nil
  | cons x xs ih =>
    rw [List.flatMap_cons]
    apply (h x List.mem_cons_self).append
    exact ih fun y hy => h y (List.mem_cons_of_mem _ hy)

theorem singleton (h : ∀ row ∈ t.fields, row.2.nestedTypeName = none) : ChildrenFirst [t] := by
  apply ChildrenFirst.concat .nil
  intro row hrow n hn
  rw [h row hrow] at hn
  cases hn

/-- Wherever a type stands in the list, what was made for its fields stands in front of it. -/
theorem nestedIn_front {front back : List TypeDescriptor} (h : ChildrenFirst types)
    (heq : types = front ++ t :: back) : t.NestedIn (front.map TypeDescriptor.name) := by
  induction h generalizing back with
  | nil => simp at heq
  | @concat types u _ hu ih =>
    rcases List.eq_nil_or_concat back with rfl | ⟨back, last, rfl⟩
    · obtain ⟨rfl, hlast⟩ := List.append_inj' heq rfl
      cases hlast
      exact hu
    · have hsplit : types ++ [u] = (front ++ t :: back) ++ [last] := by simpa using heq
      exact ih (List.append_inj' hsplit rfl).1

end ChildrenFirst

theorem Field.PointsTo.nested_mem {known : List String} {f : Field} {n : String}
    (h : f.PointsTo known types) (hn : f.nestedTypeName = some n) :
    .text n ∈ types.map TypeDescriptor.name := by
  cases h with
  | scalar _ _ _ _ _ hnone | model _ _ _ _ hnone =>
    rw [hnone] at hn
    cases hn
  | derived t' n' _ _ ht hname _ hnested =>
    rw [hnested] at hn
    cases hn
    exact List.mem_map.mpr ⟨t', ht, hname⟩

theorem Compiles.childrenFirst {s : Surroundings} {o : Owner} {p : Property} {c : Compiled}
    (h : Compiles s o p c) : ChildrenFirst c.types := by
  induction h with
  | deprecated _ | unresolved _ | scalar _ _ | reference _ _ _ => exact .nil
  | enumeration _ _ _ | union _ _ _ => exact .singleton fun row hrow => by cases hrow
  | @nested o p raw name hidden rows result _ _ _ _ _ hall ih =>
    have hmade : ChildrenFirst (madeTypes result (rows.map (·.2))) := by
      apply ChildrenFirst.flatMap
      intro q hq
      obtain ⟨row, hrow, rfl⟩ := List.mem_map.mp hq
      exact ih row hrow
    apply hmade.concat
    intro row hrow n hn
    obtain ⟨q, hq, hf, -⟩ := mem_fieldRows.mp hrow
    obtain ⟨source, hs, rfl⟩ := List.mem_map.mp hq
    obtain ⟨u, hu, hname⟩ :=
      List.mem_map.mp (((hall source hs).closed.1 row.2 hf).nested_mem hn)
    exact List.mem_map.mpr ⟨u, mem_madeTypes.mpr ⟨source.2, hq, hu⟩, hname⟩

namespace Generator

theorem childrenFirst_typesOf (g : Generator) (m : Model) : ChildrenFirst (g.typesOf m) := by
  cases hd : (g.draft m).outcome with
  | error e =>
    unfold typesOf
    rw [hd]
    exact .nil
  | ok draft =>
    obtain ⟨fields, types⟩ := draft
    obtain ⟨result, hall, htypes, -⟩ := compiles_of_draft hd
    have hmade : ChildrenFirst types := by
      rw [htypes]
      apply ChildrenFirst.flatMap
      intro q hq
      exact (hall q hq).childrenFirst
    rw [typesOf_eq hd]
    apply hmade.concat
    intro row hrow n hn
    exact ((draft_closed hd).1 row hrow).nested_mem hn

theorem childrenFirst_plan (g : Generator) : ChildrenFirst g.plan := by
  have hroot : ChildrenFirst [rootType g.models g.settings] := by
    apply ChildrenFirst.singleton
    intro row hrow
    obtain ⟨listed, -, hs⟩ := mem_listings hrow
    rw [hs]
    rfl
  apply hroot.append
  apply ChildrenFirst.flatMap
  intro m _
  exact g.childrenFirst_typesOf m

end Generator

namespace Registry

/-- Rows that have the names of their types as keys. -/
def Keyed (rows : List (Value × TypeDescriptor)) : Prop := ∀ row ∈ rows, row.1 = row.2.name

theorem Keyed.keys_eq {rows : List (Value × TypeDescriptor)} (h : Keyed rows) :
    rows.map (·.1) = (rows.map (·.2)).map TypeDescriptor.name := by
  rw [List.map_map]
  exact List.map_congr_left h

/-- A registry holds types behind those that were made for their fields, and all of the names of a
list. -/
structure Ordered (r : Registry) (types : List TypeDescriptor) : Prop where
  childrenFirst : ChildrenFirst (r.types.map (·.2))
  keyed : Keyed r.types
  named : ∀ n : String, .text n ∈ types.map TypeDescriptor.name → .text n ∈ r.names

theorem Ordered.add (h : r.Ordered types) (ht : t.NestedIn (types.map TypeDescriptor.name)) :
    (r.add t).Ordered (types ++ [t]) := by
  obtain ⟨hfirst, hkeyed, hnamed⟩ := h
  cases hf : r.find? t.name with
  | some e =>
    -- a type that is there keeps its place, which is in front of all that comes later
    rw [add_of_found hf]
    refine ⟨hfirst, hkeyed, ?_⟩
    intro n hn
    rw [List.map_append, List.mem_append] at hn
    rcases hn with hn | hn
    · exact hnamed n hn
    · obtain ⟨row, hrow, hkey, -⟩ := Table.mem_of_find? hf
      have hname : t.name = .text n := (List.mem_singleton.mp hn).symm
      rw [hname] at hkey
      rw [← Value.eq_of_beq_text hkey]
      exact List.mem_map_of_mem hrow
  | none =>
    rw [add_of_free hf]
    refine ⟨?_, ?_, ?_⟩
    · rw [List.map_append]
      apply hfirst.concat
      rw [← hkeyed.keys_eq]
      exact fun row hrow n hn => hnamed n (ht row hrow n hn)
    · intro row hrow
      rcases List.mem_append.mp hrow with hrow | hrow
      · exact hkeyed row hrow
      · rw [List.mem_singleton.mp hrow]
    · intro n hn
      unfold names
      rw [List.map_append, List.mem_append] at hn ⊢
      exact hn.imp_left (hnamed n)

theorem ordered_addAll (h : ChildrenFirst types) :
    (({} : Registry).addAll types).Ordered types := by
  induction h with
  | nil =>
    refine ⟨.nil, ?_, ?_⟩
    · intro row hrow
      cases hrow
    · intro n hn
      cases hn
  | concat _ ht ih =>
    rw [addAll_concat]
    exact ih.add ht

/-- In front of the name of a type there are the names of the types that were made for its
fields. -/
theorem Ordered.names_split (h : r.Ordered types) {row : Value × TypeDescriptor}
    (hrow : row ∈ r.types) :
    ∃ front back, r.names = front ++ row.1 :: back ∧ row.2.NestedIn front := by
  obtain ⟨front, back, heq⟩ := List.append_of_mem hrow
  refine ⟨front.map (·.1), back.map (·.1), ?_, ?_⟩
  · unfold names
    rw [heq, List.map_append, List.map_cons]
  · have hkeyed : Keyed front := by
      intro other hother
      apply h.keyed
      rw [heq]
      exact List.mem_append_left _ hother
    have htypes : r.types.map (·.2) = front.map (·.2) ++ row.2 :: back.map (·.2) := by
      rw [heq, List.map_append, List.map_cons]
    rw [hkeyed.keys_eq]
    exact h.childrenFirst.nestedIn_front htypes

end Registry

/-- The types made for a property that compiles are those of the declarations in its tree, in
post-order, each behind those that were made for its fields; and in a registry that has been built
the name of a type stands behind the names of those that were made for its fields. -/
theorem compileProperty_postorder :
    (∀ (s : Surroundings) (o : Owner) (p : Property) (c : Compiled),
      (compileProperty s o p).outcome = .ok c →
        (∃! t : DeclarationTree, t.declaration = p ∧ t.Whole ∧ t.Yields s o c) ∧
          ∀ front t back, c.types = front ++ t :: back →
            t.NestedIn (front.map TypeDescriptor.name)) ∧
      ∀ (catalogue : LookupCatalogue) (sources : List ModelSource) (source : SettingsSource)
        (lookup : Option RelationLookup) (r : Registry),
        (buildRegistry catalogue sources source lookup).outcome = .ok r →
          Table.Distinct r.types ∧ ∀ row ∈ r.types, ∃ front back,
            r.names = front ++ row.1 :: back ∧ row.2.NestedIn front := by
  constructor
  · intro s o p c h
    constructor
    · obtain ⟨t, hp, hwhole, hyields⟩ := compileWithin_yields h
      refine ⟨t, ⟨hp, hwhole, hyields⟩, ?_⟩
      rintro t' ⟨hp', hwhole', -⟩
      exact hwhole'.unique hwhole (hp'.trans hp.symm)
    · intro front t back heq
      exact (Compiles.of_compileProperty h).childrenFirst.nestedIn_front heq
  · intro catalogue sources source lookup r h
    obtain ⟨models, g, -, -, -, hr, -⟩ := buildRegistry_realizes h
    obtain ⟨_, g', -, -, -, -, text, -, rfl⟩ := buildRegistry_ok_iff.mp h
    refine ⟨hr.distinct, ?_⟩
    intro row hrow
    exact (Registry.ordered_addAll g'.childrenFirst_plan).names_split hrow

/-- A place inside an address comes before the address; in the registry of an account and a ledger
the types of their fields come before theirs. -/
theorem compileProperty_postorder_address :
    let s := ({} : Surroundings).limited 2
    let order : Owner := { name := "Order" }
    (∃ c, (compileProperty s order addressProperty).outcome = .ok c ∧
      (c.types.map fun t => t.name.plain) = ["Order_address_place", "Order_address"] ∧
        ∃! t : DeclarationTree, t.declaration = addressProperty ∧ t.Whole ∧ t.Yields s order c) ∧
      ∃ r, (buildRegistry [] bookkeeping (.given {}) none).outcome = .ok r ∧
        ∀ row ∈ r.types, ∃ front back,
          r.names = front ++ row.1 :: back ∧ row.2.NestedIn front := by
  intro s order
  obtain ⟨hcompiled, hbuilt⟩ := compileProperty_postorder
  constructor
  · have hnames : ((Compiled.ofOutcome (compileProperty s order addressProperty).outcome).types.map
        fun t => t.name.plain) = ["Order_address_place", "Order_address"] := by
      decide +kernel
    cases hc : (compileProperty s order addressProperty).outcome with
    | error e =>
      rw [hc] at hnames
      cases hnames
    | ok c =>
      rw [hc] at hnames
      exact ⟨c, rfl, hnames, (hcompiled s order addressProperty c hc).1⟩
  · obtain ⟨r, hr⟩ := exists_bookkeepingRegistry
    exact ⟨r, hr, (hbuilt [] bookkeeping (.given {}) none r hr).2⟩

end ModelSchema
