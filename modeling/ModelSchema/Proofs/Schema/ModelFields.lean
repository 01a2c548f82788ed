import ModelSchema.Proofs.Schema.Listings

/-!
# Fields of models

The fields of a model are put into one table, those of its properties before those of its exposed
relations. A name keeps the place where it came first and stands for the field that came last. Main
statement: where its name is free, a model has the object type with the names of its properties that
have a field, then the new names of its exposed relations; and each name stands for the last of its
relations, or without any for its property.
-/

namespace ModelSchema

variable {g g' : Generator} {m : Model} {fields : List (Value × Field)} {relation : Relation}
  {props : List Property} {result : Property → Compiled}

/-- A field leads to the instances of a relation, page by page. -/
structure Field.Connects (f : Field) (relation : Relation) : Prop where
  name_eq : f.name = .text relation.name
  typeName_eq : f.typeName = relation.target
  isList : f.isList = true
  isRelation : f.isRelation = true
  isConnection : f.isConnection = true
  relationKind_eq : f.relationKind = some relation.kind.name
  embed_eq : f.embed = relation.embed
  resolver_eq : f.resolver = some (.relation relation)
  pages : ∀ row ∈ pageArguments, Table.find? row.1 f.arguments = some row.2

/-- Whatever the name of the filter, the arguments that choose a page are there. -/
theorem find?_connectionArguments {filterName : Value} {arguments : List (Value × Argument)}
    {row : Value × Argument} (h : connectionArguments filterName = .ok arguments)
    (hrow : row ∈ pageArguments) : Table.find? row.1 arguments = some row.2 := by
  have hdistinct := textKeyed_pageArguments.distinct
  unfold connectionArguments at h
  split at h
  · split at h
    · cases h
      have hfound : Table.find? row.1 pageArguments.reverse = some row.2 :=
        Table.find?_of_mem hdistinct.reverse (List.mem_reverse.mpr hrow)
      rw [Table.find?_merge, hfound, Option.some_or]
    · cases h
  · cases h
    exact Table.find?_of_mem hdistinct hrow

theorem map_fst_fieldRows
    (h : ∀ p ∈ props, ∀ f, (result p).field = some f → f.name = p.name) :
    (fieldRows result props).map Prod.fst =
      (props.filter fun p => (result p).field.isSome).map Property.name := by
  induction props with
  | nil => rfl
  | cons p rest ih =>
    rw [List.forall_mem_cons] at h
    unfold fieldRows at ih ⊢
    cases hf : (result p).field with
    | none =>
      rw [List.filterMap_cons_none (by rw [hf]; rfl), List.filter_cons_of_neg (by simp [hf]),
        ih h.2]
    | some f =>
      rw [List.filterMap_cons_some (by rw [hf]; rfl), List.filter_cons_of_pos (by simp [hf]),
        List.map_cons, List.map_cons, ih h.2, ← h.1 f hf]

/-- A name stands for the field of the last property that bears it and has a field. -/
theorem find?_ofRows_fieldRows_last {front back : List Property} {last : Property} {f : Field}
    (hnamed : ∀ p ∈ front ++ last :: back, ∀ f, (result p).field = some f → f.name = p.name)
    (hback : ∀ later ∈ back, (result later).field.isSome = true → (later.name == last.name) = false)
    (hf : (result last).field = some f) :
    Table.find? last.name (Table.ofRows (fieldRows result (front ++ last :: back))) = some f := by
  rw [List.forall_mem_append, List.forall_mem_cons] at hnamed
  obtain ⟨-, hlast, hlater⟩ := hnamed
  have hrow : ((result last).field.map fun f => (f.name, f)) = some (last.name, f) := by
    rw [hf, Option.map_some, hlast f hf]
  have hrows : fieldRows result (front ++ last :: back) =
      fieldRows result front ++ (last.name, f) :: fieldRows result back := by
    unfold fieldRows
    rw [List.filterMap_append]
    congr 1
    exact List.filterMap_cons_some hrow
  unfold Table.ofRows
  rw [hrows]
  apply Table.find?_merge_last
  intro row hin
  obtain ⟨later, hmem, hfield, hkey⟩ := mem_fieldRows.mp hin
  rw [hkey, hlater later hmem row.2 hfield]
  exact hback later hmem (by rw [hfield]; rfl)

namespace Generator

/-- The field that a property of a model compiles to, if any. -/
def propertyField? (g : Generator) (m : Model) (p : Property) : Option Field :=
  (Compiled.ofOutcome (compileProperty g.surroundings m.owner p).outcome).field

/-- The names of the properties of a model that have a field, each where it comes first. -/
def propertyNames (g : Generator) (m : Model) : List Value :=
  (((m.properties.map (·.2)).filter fun p => (g.propertyField? m p).isSome).map
    Property.name).eraseDups

/-- The names of the relations of a model that are exposed. -/
def relationNames (g : Generator) (m : Model) : List Value :=
  (g.exposedRelations m).map fun relation => .text relation.name

/-- A table has the fields of a model: the names of its properties, then the new ones of its
relations, each where it comes first. A name stands for the last relation that bears it, and without
any for the last property. -/
structure HasFields (g : Generator) (m : Model) (fields : List (Value × Field)) : Prop where
  names : fields.map Prod.fst =
    g.propertyNames m ++ ((g.relationNames m).removeAll (g.propertyNames m)).eraseDups
  relation : ∀ front last back, g.exposedRelations m = front ++ last :: back →
    (∀ later ∈ back, later.name ≠ last.name) →
      ∃ f, Table.find? (.text last.name) fields = some f ∧ f.Connects last
  property : ∀ front last back, m.properties.map (·.2) = front ++ last :: back →
    (∀ later ∈ back, (g.propertyField? m later).isSome = true → (later.name == last.name) = false) →
      (∀ relation ∈ g.exposedRelations m, (Value.text relation.name == last.name) = false) →
        ∀ f, g.propertyField? m last = some f → Table.find? last.name fields = some f

theorem exposes_iff_exists :
    g.exposes relation = true ↔
      ∃ first ∈ g.firstModels,
        relation.target = some first.name ∧ first.name ≠ "" ∧ first.shared = true := by
  constructor
  · intro h
    unfold exposes at h
    cases htarget : relation.target with
    | none =>
      rw [htarget] at h
      cases h
    | some target =>
      rw [htarget] at h
      dsimp only at h
      rw [Bool.and_eq_true, bne_iff_ne, Option.any_eq_true] at h
      obtain ⟨hname, other, hother, hshared⟩ := h
      -- the model that the name leads to is the first that bears it
      obtain ⟨first, hfirst, hsame⟩ :=
        exists_newModel (List.mem_of_find?_eq_some hother) (List.not_mem_nil (a := other.name))
      have hnamed : other.name = target := by simpa using List.find?_some hother
      have hfound : g.model? first.name = some first := find?_of_mem_newModels hfirst
      rw [hsame, hnamed, hother] at hfound
      cases hfound
      exact ⟨other, hfirst, by rw [hnamed], by rwa [hnamed], hshared⟩
  · rintro ⟨first, hfirst, htarget, hname, hshared⟩
    exact (exposes_iff_shared hfirst htarget hname).mpr hshared

theorem find?_merge_relationRows_last {settings : Settings} {arguments : List (Value × Argument)}
    {front back : List Relation} {last : Relation} (fields : List (Value × Field))
    (hmade : connectionArguments settings.relationFilterArgument = .ok arguments)
    (hback : ∀ later ∈ back, later.name ≠ last.name) :
    ∃ f, Table.find? (.text last.name)
      (Table.merge fields (relationRows settings (front ++ last :: back))) = some f ∧
        f.Connects last := by
  have hgiven : relationArguments settings = arguments := by
    unfold relationArguments
    rw [hmade]
  refine ⟨.ofRelation last arguments, ?_, ?_⟩
  · unfold relationRows
    rw [hgiven, List.map_append, List.map_cons]
    apply Table.find?_merge_last
    intro row hrow
    obtain ⟨later, hlater, rfl⟩ := List.mem_map.mp hrow
    rw [Value.text_beq_text]
    exact beq_false_of_ne (hback later hlater)
  · exact ⟨rfl, rfl, rfl, rfl, rfl, rfl, rfl, rfl, fun row => find?_connectionArguments hmade⟩

theorem HasFields.of_draft {types : List TypeDescriptor}
    (h : (g.draft m).outcome = .ok (fields, types)) : g.HasFields m fields := by
  obtain ⟨rows, hcompiled, hrelations⟩ := draft_ok_iff.mp h
  obtain ⟨hall, rfl, -⟩ := compileAll_ok_iff.mp hcompiled
  obtain ⟨harguments, rfl⟩ := addRelations_ok_iff.mp hrelations
  have hnamed : ∀ p ∈ m.properties.map (·.2), ∀ f, g.propertyField? m p = some f →
      f.name = p.name := by
    intro p hp f hf
    obtain ⟨c, hc⟩ := hall p hp
    unfold propertyField? at hf
    rw [hc] at hf
    exact (Compiles.of_compileProperty hc).field_name hf
  constructor
  · have hkeys : _ = (_ : List Property).map Property.name := map_fst_fieldRows hnamed
    have hrelated : (relationRows g.settings (g.exposedRelations m)).map Prod.fst =
        g.relationNames m := by
      unfold relationRows
      rw [List.map_map]
      rfl
    rw [Table.map_fst_merge, Table.ofRows, Table.map_fst_merge, hrelated, List.map_nil,
      List.removeAll_nil, List.nil_append, hkeys]
    rfl
  · intro front last back hsplit hback
    obtain ⟨arguments, hmade⟩ := harguments (by rw [hsplit]; simp)
    rw [hsplit]
    exact find?_merge_relationRows_last _ hmade hback
  · intro front last back hsplit hback hrelated f hf
    have habsent : ∀ row ∈ relationRows g.settings (g.exposedRelations m),
        (row.1 == last.name) = false := by
      intro row hrow
      obtain ⟨relation, hrelation, rfl⟩ := List.mem_map.mp hrow
      exact hrelated relation hrelation
    rw [Table.find?_merge_of_absent habsent]
    rw [hsplit] at hnamed ⊢
    exact find?_ofRows_fieldRows_last hnamed hback hf

end Generator

open Generator in
/-- A model that is compiled for the first time, and whose name no type bears when its own is
registered, has an object type with its fields: each property compiles, and the relations are those
to a model of the run that has a name and of which the first definition is shared. -/
theorem generateObject_fields {t : TypeDescriptor} (hnew : m.name ∉ g.compiled)
    (h : (generateObject m).Ends g (.ok t) g')
    (hfree : ((modelFields m).finalState g).registry.find? (.text m.name) = none) :
    t = m.objectType t.fields ∧
      (∀ row ∈ m.properties,
        ∃ c, (compileProperty g.surroundings m.owner row.2).outcome = .ok c) ∧
      (∀ relation, g.exposes relation = true ↔
        ∃ first ∈ g.firstModels,
          relation.target = some first.name ∧ first.name ≠ "" ∧ first.shared = true) ∧
      g.HasFields m t.fields := by
  obtain ⟨fields, types, hdraft, haccepted, hstored, -⟩ :=
    (generateObject_ends_ok_of_new hnew).mp h
  obtain ⟨htypes, -⟩ := Registry.acceptsAll_append.mp haccepted
  have hends : (modelFields m).Ends g (.ok fields)
      { g with registry := g.registry.addAll types } :=
    modelFields_ends_ok.mpr ⟨types, hdraft, htypes, rfl⟩
  rw [hends.1] at hfree
  have ht : t = m.objectType fields := by
    have hname : (m.objectType fields).name = .text m.name := rfl
    rw [← hstored]
    unfold Registry.registration
    rw [hname, hfree]
  obtain ⟨rows, hcompiled, -⟩ := draft_ok_iff.mp hdraft
  obtain ⟨hall, -⟩ := compileAll_ok_iff.mp hcompiled
  subst ht
  refine ⟨rfl, ?_, fun relation => exposes_iff_exists, .of_draft hdraft⟩
  intro row hrow
  exact hall row.2 (List.mem_map_of_mem hrow)

def emailProperty : Property := { name := .text "email", type := .scalar "string" }

def newestOrder : Relation :=
  { name := "orders", source := "Customer", target := some "Order", kind := .hasOne }

/-- A customer whose orders are a text, then all orders, and in the end the newest order; bills are
of a model that is not there. -/
def customerModel : Model :=
  { name := "Customer"
    pluralName := "customers"
    properties :=
      [(.text "email", emailProperty),
       (.text "orders", { emailProperty with name := .text "orders" })]
    relations :=
      [(.text "all", { newestOrder with kind := .hasMany }),
       (.text "bills", { newestOrder with name := "bills", target := some "Bill" }),
       (.text "first", { newestOrder with name := "first" }),
       (.text "newest", newestOrder)] }

open Generator in
theorem generateObject_fields_customer :
    let g := Generator.ofModels [sharedOrder, customerModel]
    customerModel.name ∉ g.compiled ∧
      ((modelFields customerModel).finalState g).registry.find? (.text "Customer") = none ∧
      ∃ t g', (generateObject customerModel).Ends g (.ok t) g' ∧
        (t.fields.map Prod.fst).map Value.plain = ["email", "orders", "first"] ∧
        (∃ f, Table.find? (.text "orders") t.fields = some f ∧ f.Connects newestOrder) ∧
        ∃ f, g.propertyField? customerModel emailProperty = some f ∧
          Table.find? (.text "email") t.fields = some f := by
  intro g
  have hnew : customerModel.name ∉ g.compiled := List.not_mem_nil
  have hfree : ((modelFields customerModel).finalState g).registry.find? (.text "Customer") =
      none := by
    apply Option.isNone_iff_eq_none.mp
    decide +kernel
  have hcompiles : ((generateObject customerModel).run g).2.outcome.isOk = true := by
    decide +kernel
  obtain ⟨t, ht⟩ := exists_of_isOk hcompiles
  have hends : (generateObject customerModel).Ends g (.ok t) _ := ⟨rfl, ht⟩
  obtain ⟨-, -, -, hfields⟩ := generateObject_fields hnew hends hfree
  refine ⟨hnew, hfree, t, _, hends, ?_, ?_, ?_⟩
  · rw [hfields.names]
    decide +kernel
  · have hexposed : g.exposedRelations customerModel =
        [{ newestOrder with kind := .hasMany }, { newestOrder with name := "first" }] ++
          [newestOrder] := rfl
    exact hfields.relation _ newestOrder [] hexposed (by simp)
  · have hsome : (g.propertyField? customerModel emailProperty).isSome = true := by
      decide +kernel
    obtain ⟨f, hf⟩ := Option.isSome_iff_exists.mp hsome
    have hsplit : customerModel.properties.map (·.2) =
        [] ++ emailProperty :: [{ emailProperty with name := .text "orders" }] := rfl
    refine ⟨f, hf, hfields.property _ emailProperty _ hsplit ?_ ?_ f hf⟩
    · decide +kernel
    · decide +kernel

/-- A shared model without a name. -/
def namelessModel : Model := { name := "", pluralName := "things", shared := true }

def namelessTarget : Relation :=
  { name := "thing", source := "Order", target := some "", kind := .hasOne }

/-- An order with a relation to the model without a name. -/
def strayOrder : Model := { orderModel with relations := [(.text "thing", namelessTarget)] }

open Generator in
/-- A relation to a shared model is not among the fields if the model has no name. -/
theorem nameless_target_not_exposed :
    let g := Generator.ofModels [namelessModel, strayOrder]
    namelessModel ∈ g.firstModels ∧ namelessModel.shared = true ∧
      namelessTarget.target = some namelessModel.name ∧
      strayOrder.relations = [(.text "thing", namelessTarget)] ∧
      strayOrder.name ∉ g.compiled ∧
      ((modelFields strayOrder).finalState g).registry.find? (.text "Order") = none ∧
      ∃ t g', (generateObject strayOrder).Ends g (.ok t) g' ∧ t.fields = [] := by
  intro g
  have hfields : (match ((generateObject strayOrder).run g).2.outcome with
      | .ok t => t.fields.isEmpty
      | .error _ => false) = true := by
    decide +kernel
  refine ⟨List.mem_cons_self, rfl, rfl, rfl, List.not_mem_nil, rfl, ?_⟩
  split at hfields
  · rename_i t ht
    exact ⟨t, _, ⟨rfl, ht⟩, List.isEmpty_iff.mp hfields⟩
  · cases hfields

end ModelSchema
