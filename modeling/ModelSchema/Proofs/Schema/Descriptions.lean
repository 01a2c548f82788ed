import ModelSchema.Proofs.Schema.Declarations

/-!
# Models that are read from descriptions

A mapping has each of its keys once. So a model that is read from a description is named well as
soon as the keys under which it declares properties, at any depth, are texts: the names in one table
are distinct of themselves, and only of models that are made by hand this has to be asked for.
-/

namespace ModelSchema

namespace Value

variable {v w : Value} {entries : List (Value × Value)}

/-- The keys of a mapping, whether it holds itself or not. -/
def ownKeys : Value → List Value
  | .mapping entries => entries.map Prod.fst
  | .knot before key after _ => before.map Prod.fst ++ key :: after.map Prod.fst
  | _ => []

/-- No mapping inside a value, at any depth, has a key twice. -/
inductive Keyed : Value → Prop
  | of_parts {v : Value} (here : v.ownKeys.Pairwise fun a b => (a == b) = false)
      (inside : ∀ w ∈ v.parts, Keyed w) : Keyed v

namespace Keyed

theorem of_mem_parts (h : v.Keyed) (hw : w ∈ v.parts) : w.Keyed := by
  cases h with
  | of_parts _ inside => exact inside w hw

theorem knot_form {before after : List (Value × Value)} {key : Value} {form : KnotForm}
    (h : (knot before key after form).Keyed) (other : KnotForm) :
    (knot before key after other).Keyed := by
  cases h with
  | of_parts here inside => exact .of_parts here inside

theorem distinct (h : v.Keyed) (he : v.entries? = some entries) : Table.Distinct entries := by
  cases h with
  | of_parts here _ =>
    cases v with
    | mapping _ =>
      cases he
      exact List.pairwise_map.mp here
    | knot before key after form =>
      have hkeys (inner : Value) : ((before ++ (key, inner) :: after).map Prod.fst).Pairwise
          fun a b => (a == b) = false := by
        rw [List.map_append]
        exact here
      cases form with
      | direct | wrapped =>
        cases he
        exact List.pairwise_map.mp (hkeys _)
      | wrapper =>
        cases he
        exact List.pairwise_singleton _ _
    | _ => cases he

theorem distinct_items (h : v.Keyed) (he : v.items = .ok entries) : Table.Distinct entries := by
  rcases items_cases he with rfl | hfound
  · exact .nil
  · exact h.distinct hfound

/-- What a mapping holds is keyed like the mapping, the mapping itself included if it holds that. -/
theorem of_mem_entries (h : v.Keyed) (he : v.entries? = some entries) {entry : Value × Value}
    (hentry : entry ∈ entries) : entry.2.Keyed := by
  cases v with
  | mapping _ =>
    cases he
    exact h.of_mem_parts (List.mem_flatMap.mpr ⟨entry, hentry, by simp⟩)
  | knot before key after form =>
    have hrest : ∀ row, row ∈ before ∨ row ∈ after → row.2.Keyed := by
      intro row hrow
      have hpart : row.2 ∈ (before ++ after).flatMap fun entry => [entry.1, entry.2] :=
        List.mem_flatMap.mpr ⟨row, List.mem_append.mpr hrow, by simp⟩
      exact h.of_mem_parts (List.mem_cons_of_mem _ hpart)
    cases form with
    | direct | wrapped =>
      cases he
      rcases List.mem_append.mp hentry with hbefore | hmem
      · exact hrest entry (.inl hbefore)
      · rcases List.mem_cons.mp hmem with rfl | hafter
        · exact h.knot_form _
        · exact hrest entry (.inr hafter)
    | wrapper =>
      cases he
      rw [List.mem_singleton.mp hentry]
      exact h.knot_form _
  | _ => cases he

theorem member {word : String} (h : v.Keyed) (hword : word ∈ ["type", "properties", "definition"])
    (hw : v.member? word = some w) : w.Keyed := by
  rcases member?_cases hword hw with
    ⟨entries, he, entry, hentry, rfl⟩ | ⟨fields, hv, field, hf, rfl⟩
  · exact h.of_mem_entries he hentry
  · rcases hv with rfl | ⟨shape, rfl⟩
    all_goals exact h.of_mem_parts (List.mem_map_of_mem hf)

theorem read {word : String} (h : v.Keyed) (hword : word ∈ ["type", "properties", "definition"]) :
    (v.read [word]).Keyed := by
  rw [Value.read, firstMember?, firstMember?, Option.or_none]
  cases hw : v.member? word with
  | none => exact .of_parts .nil (by simp [parts])
  | some w => exact h.member hword hw

end Keyed

end Value

variable {raw : Value} {t : DeclaredType} {p : Property} {m : Model} {models : List Model}

/-- The structures that a type declares are keyed. -/
def DeclaredType.Keyed : DeclaredType → Prop
  | .listOf item => item.Keyed
  | .embedded raw _ _ => raw.Keyed
  | _ => True

theorem DeclaredType.Keyed.itemType (h : t.Keyed) {name : Value} {hidden : List Value}
    (hitem : t.itemType = .embedded raw name hidden) : raw.Keyed := by
  cases t with
  | listOf item =>
    have hitem : item = .embedded raw name hidden := hitem
    subst hitem
    exact h
  | embedded _ _ _ =>
    cases hitem
    exact h
  | _ => cases hitem

theorem DeclaredType.keyed_of_ofMapping (h : raw.Keyed) (ht : ofMapping raw = .ok t) :
    t.Keyed := by
  unfold ofMapping at ht
  split at ht
  · rename_i properties hproperties
    obtain ⟨hidden, -, rfl⟩ := exists_of_map_ok ht
    exact h.member (by simp) hproperties
  · cases ht
    exact h

theorem DeclaredType.keyed_of_ofValue (h : raw.Keyed) (ht : ofValue raw = .ok t) : t.Keyed := by
  induction raw using Value.part_induction generalizing t with
  | step raw ih =>
    have hitems : ∀ items, raw.parts = items → ofItems items = .ok t → t.Keyed := by
      intro items hparts ht
      cases items with
      | nil =>
        cases ht
        trivial
      | cons first rest =>
        have hfirst : first ∈ raw.parts := by simp [hparts]
        obtain ⟨item, hitem, rfl⟩ := exists_of_map_ok ht
        have hkeyed : item.Keyed := ih first hfirst (h.of_mem_parts hfirst) hitem
        exact hkeyed
    unfold ofValue at ht
    split at ht
    · rename_i t'
      cases ht
      cases t' <;> trivial
    · exact hitems _ rfl ht
    · exact hitems _ rfl ht
    · rename_i declared
      cases ht
      unfold ofName
      dsimp only
      repeat' split
      all_goals trivial
    · exact keyed_of_ofMapping h ht
    · exact keyed_of_ofMapping h ht
    · cases ht
      unfold ofDescription
      repeat' split
      all_goals trivial

theorem Property.keyed_of_ofValue {key : Value} (h : raw.Keyed) (hp : ofValue key raw = .ok p) :
    p.type.Keyed := by
  obtain ⟨-, ⟨described, hdescribed, htype⟩ | htype | htype⟩ := ofValue_cases hp
  · exact DeclaredType.keyed_of_ofValue (h.member (by simp) hdescribed) htype
  · rw [htype]
    exact h
  · exact DeclaredType.keyed_of_ofValue h htype

theorem Property.keyed_of_ofMapping {rows : List (Value × Property)} (h : raw.Keyed)
    (hrows : ofMapping raw = .ok rows) : ∀ row ∈ rows, row.2.type.Keyed := by
  intro row hrow
  obtain ⟨entries, he, entry, hentry, hp⟩ := exists_of_mem_ofMapping hrows row hrow
  exact keyed_of_ofValue (h.of_mem_entries he hentry) hp

namespace Model

theorem Declares.keyed {n : String} (h : m.Declares n p)
    (hown : ∀ row ∈ m.properties, row.2.type.Keyed) : p.type.Keyed := by
  induction h with
  | own hp =>
    obtain ⟨row, hrow, rfl⟩ := List.mem_map.mp hp
    exact hown row hrow
  | inside _ hitem hrows hrow ih =>
    exact Property.keyed_of_ofMapping (ih.itemType hitem) hrows _ hrow

/-- The keys under which a model declares properties, at any depth, are texts. -/
structure TextKeys (m : Model) : Prop where
  own : ∀ row ∈ m.properties, ∃ n, row.2.name = .text n
  inside : ∀ {o : String} {p : Property} {raw name : Value} {hidden : List Value}
    {entries : List (Value × Value)},
    m.Declares o p → p.type.itemType = .embedded raw name hidden → raw.items = .ok entries →
      ∀ entry ∈ entries, ∃ n, entry.1 = .text n

theorem keyed_rawProperties (h : raw.Keyed) : ((defined? raw ["properties"]).getD .null).Keyed := by
  have hread : ∀ v : Value, v.Keyed → ((v.firstMember? ["properties"]).getD .null).Keyed :=
    fun v hv => hv.read (by simp)
  unfold defined?
  cases hfound : raw.firstMember? ["properties"] with
  | some properties =>
    rw [Option.some_or, ← hfound]
    exact hread raw h
  | none =>
    rw [Option.none_or]
    split
    · exact .of_parts .nil (by simp [Value.parts])
    · exact hread _ (h.read (by simp))

theorem exists_of_ofValue (h : (ofValue raw).outcome = .ok m) :
    Property.ofMapping ((defined? raw ["properties"]).getD .null) = .ok m.properties := by
  obtain ⟨name, -, h⟩ := Traced.bind_eq_ok.mp h
  obtain ⟨properties, hproperties, h⟩ := Traced.bind_eq_ok.mp h
  obtain ⟨hidden, -, h⟩ := Traced.bind_eq_ok.mp h
  obtain ⟨entries, -, h⟩ := Traced.bind_eq_ok.mp h
  obtain ⟨relations, -, h⟩ := Traced.bind_eq_ok.mp h
  cases h
  exact hproperties

theorem wellNamed_of_ofValue (h : (ofValue raw).outcome = .ok m) (hraw : raw.Keyed)
    (htexts : m.TextKeys) : m.WellNamed := by
  have hproperties := exists_of_ofValue h
  have hkeyed := keyed_rawProperties hraw
  have hown := Property.keyed_of_ofMapping hkeyed hproperties
  constructor
  · refine .of_ofMapping (fun entries hentries => ⟨fun entry hentry => ?_, ?_⟩) hproperties
    · have hread : Property.ofEntries entries = .ok m.properties := by
        rw [← hproperties, Property.ofMapping, hentries]
        rfl
      have hname : entry.1 ∈ (m.properties.map (·.2)).map Property.name := by
        rw [Property.names_of_ofEntries hread]
        exact List.mem_map_of_mem hentry
      rw [List.map_map] at hname
      obtain ⟨row, hrow, heq⟩ := List.mem_map.mp hname
      rw [← heq]
      exact htexts.own row hrow
    · exact hkeyed.distinct_items hentries
  · intro o p raw name hidden entries hp hitem hentries
    have hinside : raw.Keyed := (hp.keyed hown).itemType hitem
    exact ⟨htexts.inside hp hitem hentries, hinside.distinct_items hentries⟩

end Model

/-- What a model is loaded from is sound: a description has no key twice in a mapping, and a model
that has been read before is named well. -/
def ModelSource.Sound : ModelSource → Prop
  | .described raw => raw.Keyed
  | .read m => m.WellNamed

/-- Models that are loaded are named well if the keys of what declares them are texts. -/
theorem wellNamed_of_loadModels {sources : List ModelSource}
    (h : (loadModels sources).outcome = .ok models) (hs : ∀ source ∈ sources, source.Sound)
    (htexts : ∀ m ∈ models, m.TextKeys) : ∀ m ∈ models, m.WellNamed := by
  induction sources generalizing models with
  | nil =>
    cases h
    simp
  | cons source rest ih =>
    obtain ⟨m, hm, h⟩ := Traced.bind_eq_ok.mp h
    obtain ⟨others, hothers, h⟩ := Traced.bind_eq_ok.mp h
    cases h
    rw [List.forall_mem_cons] at hs htexts ⊢
    refine ⟨?_, ih hothers hs.2 htexts.2⟩
    cases source with
    | described raw => exact Model.wellNamed_of_ofValue hm hs.1 htexts.1
    | read _ =>
      cases hm
      exact hs.1

end ModelSchema
