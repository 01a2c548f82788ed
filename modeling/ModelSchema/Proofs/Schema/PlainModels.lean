import ModelSchema.Proofs.Schema.Exports

/-!
# Plain models

A model is plain if its properties are named by texts and its descriptions, listed values and
structure names are texts or missing, at any depth. Such a model brings only plain types into a
registry, and each of its object types may be an input, unlike the root type.
-/

namespace ModelSchema

variable {arguments : List (Value × Argument)} {t : TypeDescriptor} {m : Model} {s : Surroundings}
  {o : Owner} {p : Property} {c : Compiled} {g : Generator} {types : List TypeDescriptor}
  {fields : List (Value × Field)}

/-- The remarks of a declared property are texts or missing, and so are the values that it lists. -/
structure Property.Plain (p : Property) : Prop where
  description : p.description.IsRemark
  values : ∀ values, p.enum = some values → ∀ v ∈ values, v.IsRemark
  structureName : ∀ raw name hidden, p.type.itemType = .embedded raw name hidden → name.IsRemark

structure Model.Plain (m : Model) : Prop extends m.WellNamed where
  description : m.description.IsRemark
  properties : ∀ {n : String} {p : Property}, m.Declares n p → p.Plain

theorem Value.mem_of_mem_distinctOnto {v : Value} {kept values : List Value}
    (h : v ∈ distinctOnto kept values) : v ∈ kept ∨ v ∈ values := by
  induction values generalizing kept with
  | nil => exact .inl h
  | cons w rest ih =>
    have hrest : v ∈ distinctOnto (if kept.contains w then kept else kept ++ [w]) rest := h
    rcases ih hrest with hk | hr
    · split at hk
      · exact .inl hk
      · rcases List.mem_append.mp hk with hk | hk
        · exact .inl hk
        · rw [List.mem_singleton.mp hk]
          exact .inr List.mem_cons_self
    · exact .inr (List.mem_cons_of_mem _ hr)

theorem Compiles.field_plain {f : Field} (h : Compiles s o p c) (hp : p.Plain)
    (hf : c.field = some f) : f.Plain arguments := by
  cases h <;> cases hf <;> exact ⟨hp.description, .inl rfl⟩

theorem Compiles.types_plain (h : Compiles s o p c) (hp : m.Declares o.name p) (hm : m.Plain)
    (ht : t ∈ c.types) : t.Plain arguments := by
  have hkeys := h.textKeyed hp hm.toWellNamed ht
  induction h generalizing t with
  | deprecated _ | unresolved _ | scalar _ _ | reference _ _ _ => simp at ht
  | @enumeration o p v values kind _ he =>
    rw [List.mem_singleton.mp ht] at hkeys ⊢
    refine ⟨⟨_, rfl⟩, .inl rfl, fun w hw => ?_, hkeys, by simp [TypeDescriptor.enumeration]⟩
    rcases Value.mem_of_mem_distinctOnto hw with hnil | hin
    · cases hnil
    · exact (hm.properties hp).values _ he w hin
  | union _ _ _ =>
    rw [List.mem_singleton.mp ht] at hkeys ⊢
    exact ⟨⟨_, rfl⟩, .inl rfl, by simp [TypeDescriptor.unionOf],
      hkeys, by simp [TypeDescriptor.unionOf]⟩
  | @nested o p raw name hidden rows result _ _ hitem hrows _ hall ih =>
    have hdecl : ∀ row ∈ rows, m.Declares (o.inside p.name hidden).name row.2 :=
      fun row hrow => .inside hp hitem hrows hrow
    rcases List.mem_append.mp ht with ht | ht
    · obtain ⟨q, hq, hin⟩ := mem_madeTypes.mp ht
      obtain ⟨row, hrow, rfl⟩ := List.mem_map.mp hq
      exact ih row hrow (hdecl row hrow) hin hkeys
    · rw [List.mem_singleton.mp ht] at hkeys ⊢
      refine ⟨⟨_, rfl⟩, (hm.properties hp).structureName raw name hidden hitem, by
        simp [TypeDescriptor.anonymous], hkeys, fun row hrow => ?_⟩
      obtain ⟨q, hq, hf, -⟩ := mem_fieldRows.mp hrow
      obtain ⟨source, hs, rfl⟩ := List.mem_map.mp hq
      exact (hall source hs).field_plain (hm.properties (hdecl source hs)) hf

theorem Compiles.input (h : Compiles s o p c) (ht : t ∈ c.types) (hcat : t.category = .object) :
    t.input = true := by
  induction h generalizing t with
  | deprecated _ | unresolved _ | scalar _ _ | reference _ _ _ => simp at ht
  | enumeration _ _ _ | union _ _ _ =>
    rw [List.mem_singleton.mp ht] at hcat
    cases hcat
  | nested _ _ _ _ _ _ _ ih =>
    rcases List.mem_append.mp ht with ht | ht
    · obtain ⟨q, hq, hin⟩ := mem_madeTypes.mp ht
      obtain ⟨row, hrow, rfl⟩ := List.mem_map.mp hq
      exact ih row hrow hin hcat
    · rw [List.mem_singleton.mp ht]
      rfl

theorem remarked_pageArguments : Remarked pageArguments := by
  intro row hr
  simp only [pageArguments, List.mem_cons, List.not_mem_nil, or_false] at hr
  rcases hr with rfl | rfl | rfl | rfl <;> exact .inr ⟨_, rfl⟩

theorem remarked_relationArguments (settings : Settings) :
    Remarked (Generator.relationArguments settings) := by
  unfold Generator.relationArguments connectionArguments
  split
  · rename_i arguments h
    split at h
    · split at h
      · cases h
        intro row hr
        rcases Table.snd_mem_merge hr with ⟨old, ho, hs⟩ | ⟨new, hn, hs⟩
        · rw [hs, List.mem_singleton.mp ho]
          exact .inr ⟨_, rfl⟩
        · rw [hs]
          exact remarked_pageArguments new hn
      · cases h
    · cases h
      exact remarked_pageArguments
  · exact fun row hr => by cases hr

namespace Generator

theorem plain_of_mem_typesOf (hm : m.Plain) (ht : t ∈ g.typesOf m) :
    t.Plain (relationArguments g.settings) := by
  obtain ⟨fields, types, hd, heq⟩ := exists_draft_of_mem_typesOf ht
  rw [heq] at ht
  have hkeys := textKeyed_of_draft hd hm.toWellNamed ht
  obtain ⟨result, hall, rfl, rfl⟩ := compiles_of_draft hd
  rcases List.mem_append.mp ht with ht | ht
  · obtain ⟨q, hq, hin⟩ := mem_madeTypes.mp ht
    exact (hall q hq).types_plain (.own hq) hm hin
  · rw [List.mem_singleton.mp ht] at hkeys ⊢
    refine ⟨⟨_, rfl⟩, hm.description, by simp [Model.objectType], hkeys, fun row hrow => ?_⟩
    rcases Table.snd_mem_merge hrow with ⟨old, ho, hs⟩ | ⟨new, hn, hs⟩
    · rcases Table.snd_mem_merge ho with ⟨_, hnil, -⟩ | ⟨made, hmade, hs'⟩
      · cases hnil
      · obtain ⟨q, hq, hf, -⟩ := mem_fieldRows.mp hmade
        rw [hs, hs']
        exact (hall q hq).field_plain (hm.properties (.own hq)) hf
    · obtain ⟨relation, -, rfl⟩ := List.mem_map.mp hn
      rw [hs]
      exact ⟨.inl rfl, .inr rfl⟩

/-- No type that a model brings is the same as the root type. -/
theorem not_same_rootType {models : List Model} {settings : Settings} (ht : t ∈ g.typesOf m) :
    (rootType models settings).same t = false := by
  apply Bool.eq_false_iff.mpr
  intro hs
  obtain ⟨-, hcat, -, -, -, -, -, hinput⟩ := TypeDescriptor.same_iff.mp hs
  obtain ⟨fields, types, hd, heq⟩ := exists_draft_of_mem_typesOf ht
  rw [heq] at ht
  have hin : t.input = true := by
    rcases List.mem_append.mp ht with ht | ht
    · obtain ⟨result, hall, rfl, -⟩ := compiles_of_draft hd
      obtain ⟨q, hq, hmade⟩ := mem_madeTypes.mp ht
      exact (hall q hq).input hmade hcat.symm
    · rw [List.mem_singleton.mp ht]
      rfl
  rw [hin] at hinput
  cases hinput

end Generator

end ModelSchema
