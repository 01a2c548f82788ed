import ModelSchema.Proofs.Schema.Clashes
import ModelSchema.Proofs.Schema.Consistency

/-!
# Names of derived types

A type that is made for a property is named by the path to the property: the name of the model and
the names of the properties on the way, with underscores between them. Where no part of a path has
an underscore of its own, a name tells the path: what stands before the first underscore is the
model, and behind the name of an owner the next part tells the property. Main statement: models and
properties without underscores, and a root type of another name without one, never clash, and all
types that are made for them are told apart from each other, from the models and from the root type.
-/

namespace ModelSchema

variable {s : Surroundings} {o : Owner} {p : Property} {c : Compiled} {m : Model} {g : Generator}
  {t : TypeDescriptor} {props : List Property} {result : Property → Compiled}
  {base name part : String}

/-- A name is another, or goes on from it behind an underscore. -/
def Below (base name : String) : Prop :=
  ∃ rest, name.toList = base.toList ++ rest ∧ ∀ c ∈ rest.head?, c = '_'

theorem Below.refl (name : String) : Below name name := by
  refine ⟨[], ?_, ?_⟩ <;> simp

/-- What is below the type of a field is below the owner, but not the owner itself. -/
theorem Below.of_derivedName {field : Value} (h : Below (derivedName base field) name) :
    Below base name ∧ name ≠ base := by
  obtain ⟨rest, hname, -⟩ := h
  have hlist : name.toList = base.toList ++ '_' :: (field.plain.toList ++ rest) := by
    rw [hname, derivedName]
    simp
  constructor
  · exact ⟨_, hlist, by simp⟩
  · rintro rfl
    have hlength := congrArg List.length hlist
    rw [List.length_append, List.length_cons] at hlength
    omega

theorem takeWhile_underscore {front rest : List Char} (hfront : '_' ∉ front)
    (hrest : ∀ c ∈ rest.head?, c = '_') : (front ++ rest).takeWhile (· != '_') = front := by
  have hkept : ∀ c ∈ front, (c != '_') = true := by
    intro c hc
    rw [bne_iff_ne]
    rintro rfl
    exact hfront hc
  rw [List.takeWhile_append_of_pos hkept]
  cases rest with
  | nil => simp
  | cons c rest => simp [hrest c rfl]

/-- A name without underscores is told by each name below it. -/
theorem Below.stem_unique {base' : String} (hbase : '_' ∉ base.toList) (hbase' : '_' ∉ base'.toList)
    (h : Below base name) (h' : Below base' name) : base = base' := by
  obtain ⟨rest, hname, hrest⟩ := h
  obtain ⟨rest', hname', hrest'⟩ := h'
  have hstem := takeWhile_underscore hbase hrest
  rw [← hname, hname', takeWhile_underscore hbase' hrest'] at hstem
  exact String.toList_inj.mp hstem.symm

/-- The part behind an owner is told by each name below it, if it has no underscores. -/
theorem Below.part_unique {part' : String} (hpart : '_' ∉ part.toList) (hpart' : '_' ∉ part'.toList)
    (h : Below (derivedName base (.text part)) name)
    (h' : Below (derivedName base (.text part')) name) : part = part' := by
  obtain ⟨rest, hname, hrest⟩ := h
  obtain ⟨rest', hname', hrest'⟩ := h'
  have hlist : ∀ part : String, (derivedName base (.text part)).toList =
      (base ++ "_").toList ++ part.toList := by
    intro part
    rw [derivedName, String.toList_append]
    rfl
  rw [hname, hlist, hlist, List.append_assoc, List.append_assoc] at hname'
  have htail := List.append_cancel_left hname'
  have hstem := takeWhile_underscore hpart hrest
  rw [htail, takeWhile_underscore hpart' hrest'] at hstem
  exact String.toList_inj.mp hstem.symm

/-- A type is named by a name, or goes on from it behind an underscore. -/
def TypeDescriptor.NamedBelow (base : String) (t : TypeDescriptor) : Prop :=
  ∃ n, t.name = .text n ∧ Below base n

theorem TypeDescriptor.NamedBelow.of_derivedName {field : Value}
    (h : t.NamedBelow (derivedName base field)) : t.NamedBelow base := by
  obtain ⟨n, hn, hbelow⟩ := h
  exact ⟨n, hn, hbelow.of_derivedName.1⟩

/-- Types are told apart by their names. -/
def ToldApart (types : List TypeDescriptor) : Prop :=
  types.Pairwise fun t u => (t.name == u.name) = false

theorem Compiles.namedBelow (h : Compiles s o p c) (ht : t ∈ c.types) :
    t.NamedBelow (derivedName o.name p.name) := by
  induction h generalizing t with
  | deprecated _ | unresolved _ | scalar _ _ | reference _ _ _ => simp at ht
  | enumeration _ _ _ | union _ _ _ =>
    rw [List.mem_singleton.mp ht]
    exact ⟨_, rfl, .refl _⟩
  | nested _ _ _ _ _ _ _ ih =>
    rcases List.mem_append.mp ht with ht | ht
    · obtain ⟨q, hq, hin⟩ := mem_madeTypes.mp ht
      obtain ⟨row, hrow, rfl⟩ := List.mem_map.mp hq
      exact (ih row hrow hin).of_derivedName
    · rw [List.mem_singleton.mp ht]
      exact ⟨_, rfl, .refl _⟩

/-- A model that is named well, and without underscores like the properties that it declares. -/
structure Model.Unjoined (m : Model) : Prop extends m.WellNamed where
  name : '_' ∉ m.name.toList
  declared : ∀ {o : String} {p : Property} {n : String},
    m.Declares o p → p.name = .text n → '_' ∉ n.toList

theorem toldApart_madeTypes (base : String) (hn : TextNamed props)
    (hu : ∀ p ∈ props, ∀ n, p.name = .text n → '_' ∉ n.toList)
    (hbelow : ∀ p ∈ props, ∀ t ∈ (result p).types, t.NamedBelow (derivedName base p.name))
    (heach : ∀ p ∈ props, ToldApart (result p).types) : ToldApart (madeTypes result props) := by
  refine List.pairwise_flatMap.mpr ⟨heach, hn.distinct.imp_of_mem fun {p q} hp hq hne => ?_⟩
  intro t ht u hu'
  obtain ⟨n, hpn⟩ := hn.text p hp
  obtain ⟨n', hqn⟩ := hn.text q hq
  obtain ⟨a, ha, hbelowa⟩ := hbelow p hp t ht
  obtain ⟨b, hb, hbelowb⟩ := hbelow q hq u hu'
  rw [hpn] at hbelowa
  rw [hqn] at hbelowb
  apply Bool.eq_false_iff.mpr
  intro hkey
  rw [ha, hb] at hkey
  cases Value.eq_of_beq_text hkey
  rw [hpn, hqn, Below.part_unique (hu p hp n hpn) (hu q hq n' hqn) hbelowa hbelowb] at hne
  simp at hne

theorem Compiles.toldApart (h : Compiles s o p c) (hp : m.Declares o.name p) (hu : m.Unjoined) :
    ToldApart c.types := by
  induction h with
  | deprecated _ | unresolved _ | scalar _ _ | reference _ _ _ => exact .nil
  | enumeration _ _ _ | union _ _ _ => exact List.pairwise_singleton _ _
  | @nested o p raw name hidden rows result _ _ hitem hrows _ hall ih =>
    have hdeclares : ∀ row ∈ rows, m.Declares (o.inside p.name hidden).name row.2 :=
      fun row hrow => .inside hp hitem hrows hrow
    have hinner : ∀ q ∈ rows.map (·.2), ∀ t ∈ (result q).types,
        t.NamedBelow (derivedName (o.inside p.name hidden).name q.name) := by
      intro q hq t ht
      obtain ⟨row, hrow, rfl⟩ := List.mem_map.mp hq
      exact (hall row hrow).namedBelow ht
    refine List.pairwise_append.mpr ⟨?_, List.pairwise_singleton _ _, ?_⟩
    · apply toldApart_madeTypes _ (hu.inside hp hitem hrows) _ hinner
      · intro q hq
        obtain ⟨row, hrow, rfl⟩ := List.mem_map.mp hq
        exact ih row hrow (hdeclares row hrow)
      · intro q hq n hn
        obtain ⟨row, hrow, rfl⟩ := List.mem_map.mp hq
        exact hu.declared (hdeclares row hrow) hn
    · -- The types inside go on from the name of the structure, so theirs are longer.
      intro t ht u hu'
      rw [List.mem_singleton.mp hu']
      obtain ⟨q, hq, hin⟩ := mem_madeTypes.mp ht
      obtain ⟨n, hn, hbelow⟩ := hinner q hq t hin
      apply Bool.eq_false_iff.mpr
      intro hkey
      rw [hn] at hkey
      exact hbelow.of_derivedName.2 (Value.text.inj (Value.eq_of_beq_text hkey))

namespace Generator

theorem minted_below (ht : t ∈ g.minted m) :
    ∃ n, t.name = .text n ∧ Below m.name n ∧ n ≠ m.name := by
  obtain ⟨p, -, hin⟩ := mem_madeTypes.mp ht
  cases hc : (compileProperty g.surroundings m.owner p).outcome with
  | error e => simp [hc, Compiled.ofOutcome] at hin
  | ok c =>
    rw [hc] at hin
    obtain ⟨n, hn, hbelow⟩ := (Compiles.of_compileProperty hc).namedBelow hin
    exact ⟨n, hn, hbelow.of_derivedName⟩

theorem toldApart_minted (hu : m.Unjoined) : ToldApart (g.minted m) := by
  have hcompiled : ∀ p : Property,
      Compiled.ofOutcome (compileProperty g.surroundings m.owner p).outcome = {} ∨
        Compiles g.surroundings m.owner p
          (.ofOutcome (compileProperty g.surroundings m.owner p).outcome) := by
    intro p
    cases hc : (compileProperty g.surroundings m.owner p).outcome with
    | error e => exact .inl rfl
    | ok c => exact .inr (.of_compileProperty hc)
  refine toldApart_madeTypes m.name hu.own (fun p hp n => hu.declared (.own hp)) ?_ ?_
  · intro p hp t ht
    rcases hcompiled p with hnone | hc
    · simp [hnone] at ht
    · exact hc.namedBelow ht
  · intro p hp
    rcases hcompiled p with hnone | hc
    · simp [hnone, ToldApart]
    · exact hc.toldApart (.own hp) hu

theorem takenNames_below {n : Value} (hn : n ∈ g.takenNames m) :
    ∃ name, n = .text name ∧ Below m.name name := by
  rcases List.mem_append.mp hn with hn | hn
  · obtain ⟨t, ht, rfl⟩ := List.mem_map.mp hn
    obtain ⟨name, hname, hbelow, -⟩ := minted_below ht
    exact ⟨name, hname, hbelow⟩
  · exact ⟨m.name, List.mem_singleton.mp hn, .refl _⟩

theorem takenNames_distinct (hu : m.Unjoined) :
    (g.takenNames m).Pairwise fun a b => (a == b) = false := by
  refine List.pairwise_append.mpr
    ⟨List.pairwise_map.mpr (toldApart_minted hu), List.pairwise_singleton _ _, ?_⟩
  intro a ha b hb
  obtain ⟨t, ht, rfl⟩ := List.mem_map.mp ha
  obtain ⟨n, hn, -, hne⟩ := minted_below ht
  rw [List.mem_singleton.mp hb, hn]
  apply Bool.eq_false_iff.mpr
  intro hkey
  exact hne (Value.text.inj (Value.eq_of_beq_text hkey))

theorem newModels_distinct (taken : List String) (ms : List Model) :
    (newModels taken ms).Pairwise fun m m' => m.name ≠ m'.name := by
  induction ms generalizing taken with
  | nil => exact .nil
  | cons m ms ih =>
    rw [newModels]
    split
    · exact ih taken
    · refine .cons (fun m' hm' hname => ?_) (ih _)
      exact (mem_of_mem_newModels hm').2 (by simp [hname])

end Generator

/-- Models without underscores, and the name of a root type that has none and is not that of a
model. -/
structure Unjoined (models : List Model) (rootName : Value) : Prop where
  each : ∀ m ∈ models, m.Unjoined
  root : ∃ n, rootName = .text n ∧ '_' ∉ n.toList ∧ ∀ m ∈ models, m.name ≠ n

namespace Generator

theorem plannedNames_distinct (h : Unjoined g.models g.settings.rootTypeName) :
    g.plannedNames.Pairwise fun a b => (a == b) = false := by
  have hfirst : ∀ m ∈ g.firstModels, m ∈ g.models ∧ m.Unjoined := by
    intro m hm
    have hmem := (mem_of_mem_newModels hm).1
    exact ⟨hmem, h.each m hmem⟩
  have hacross : ∀ {base base' : String}, '_' ∉ base.toList → '_' ∉ base'.toList → base ≠ base' →
      ∀ {a b : String}, Below base a → Below base' b → (Value.text a == .text b) = false := by
    intro base base' hbase hbase' hne a b ha hb
    apply Bool.eq_false_iff.mpr
    intro hkey
    cases Value.eq_of_beq_text hkey
    exact hne (ha.stem_unique hbase hbase' hb)
  constructor
  · obtain ⟨root, hroot, hplain, hother⟩ := h.root
    intro b hb
    obtain ⟨m, hm, hb⟩ := List.mem_flatMap.mp hb
    obtain ⟨name, rfl, hbelow⟩ := takenNames_below hb
    obtain ⟨hmem, hu⟩ := hfirst m hm
    rw [hroot]
    exact hacross hplain hu.name (hother m hmem).symm (.refl root) hbelow
  · refine List.pairwise_flatMap.mpr ⟨fun m hm => takenNames_distinct (hfirst m hm).2, ?_⟩
    refine (newModels_distinct [] g.models).imp_of_mem fun {m m'} hm hm' hne a ha b hb => ?_
    obtain ⟨name, rfl, hbelow⟩ := takenNames_below ha
    obtain ⟨name', rfl, hbelow'⟩ := takenNames_below hb
    exact hacross (hfirst m hm).2.name (hfirst m' hm').2.name hne hbelow hbelow'

theorem minted_toldApart (h : Unjoined g.models g.settings.rootTypeName) :
    ToldApart (g.firstModels.flatMap g.minted) ∧
      ∀ t ∈ g.firstModels.flatMap g.minted, (t.name == g.settings.rootTypeName) = false ∧
        ∀ m ∈ g.models, (t.name == .text m.name) = false := by
  obtain ⟨hroot, hrest⟩ := List.pairwise_cons.mp (plannedNames_distinct h)
  obtain ⟨heach, hacross⟩ := List.pairwise_flatMap.mp hrest
  have hminted : ∀ {m : Model} {t : TypeDescriptor}, t ∈ g.minted m → t.name ∈ g.takenNames m :=
    fun ht => List.mem_append_left _ (List.mem_map_of_mem ht)
  constructor
  · refine List.pairwise_flatMap.mpr ⟨fun m hm => ?_, hacross.imp fun {m m'} hne t ht u hu => ?_⟩
    · exact List.pairwise_map.mp (List.pairwise_append.mp (heach m hm)).1
    · exact hne t.name (hminted ht) u.name (hminted hu)
  · intro t ht
    obtain ⟨m, hm, ht⟩ := List.mem_flatMap.mp ht
    constructor
    · have hne := hroot t.name (List.mem_flatMap.mpr ⟨m, hm, hminted ht⟩)
      exact Bool.eq_false_iff.mpr fun hkey => by rw [BEq.symm hkey] at hne; cases hne
    · intro m' hm'
      obtain ⟨n, hn, hbelow, hname⟩ := minted_below ht
      apply Bool.eq_false_iff.mpr
      intro hkey
      rw [hn] at hkey
      cases Value.eq_of_beq_text hkey
      -- A name without underscores is below that of a model only if it is that name.
      have hm := (mem_of_mem_newModels hm).1
      exact hname (hbelow.stem_unique (h.each m hm).name (h.each m' hm').name (.refl _)).symm

end Generator

/-- A build of models without underscores, with a root type of another name without one, never fails
for want of a name. All types that are made for the first model of each name are told apart from
each other, from the models and from the root type. -/
theorem buildRegistry_unjoined (catalogue : LookupCatalogue) (sources : List ModelSource)
    (source : SettingsSource) (lookup : Option RelationLookup)
    (h : ∀ models settings, (loadModels sources).outcome = .ok models → source.load = .ok settings →
      Unjoined models settings.rootTypeName) :
    (∀ name category, (buildRegistry catalogue sources source lookup).outcome ≠
        .error (.nameTaken name category)) ∧
      ∀ models g, (loadModels sources).outcome = .ok models →
        Generator.make catalogue models source lookup = .ok g →
          ToldApart (g.firstModels.flatMap g.minted) ∧
            ∀ t ∈ g.firstModels.flatMap g.minted, (t.name == g.settings.rootTypeName) = false ∧
              ∀ m ∈ models, (t.name == .text m.name) = false := by
  have hplain : ∀ models g, (loadModels sources).outcome = .ok models →
      Generator.make catalogue models source lookup = .ok g →
        g.models = models ∧ Unjoined g.models g.settings.rootTypeName := by
    intro models g hm hg
    obtain ⟨-, hmodels, hs⟩ := Generator.make_ok hg
    exact ⟨hmodels, hmodels ▸ h models g.settings hm hs⟩
  constructor
  · intro name category hclash
    have hfree : Clashless (buildRegistry catalogue sources source lookup).outcome :=
      buildRegistry_clashless fun models g hm hg =>
        Generator.plannedNames_distinct (hplain models g hm hg).2
    cases hfree _ hclash
  · intro models g hm hg
    obtain ⟨hmodels, hu⟩ := hplain models g hm hg
    rw [← hmodels]
    exact Generator.minted_toldApart hu

theorem unjoined_bookkeeping : Unjoined [accountModel, ledgerModel] (.text "Viewer") := by
  constructor
  · intro m hm
    simp only [List.mem_cons, List.not_mem_nil, or_false] at hm
    rcases hm with rfl | rfl
    · refine ⟨accountModel_plain.toWellNamed, by decide, fun {o p n} hp hn => ?_⟩
      rcases accountModel_declares hp with hp | rfl
      · simp only [accountModel, List.map_cons, List.map_nil, List.mem_cons, List.not_mem_nil,
          or_false] at hp
        rcases hp with rfl | rfl <;> cases hn <;> decide
      · cases hn
        decide
    · refine ⟨ledgerModel_plain.toWellNamed, by decide, fun {o p n} hp hn => ?_⟩
      rw [ledgerModel_declares hp] at hn
      cases hn
      decide
  · exact ⟨"Viewer", rfl, by decide, by decide⟩

/-- A status, an address and an owner are made for the two models, and do not clash. -/
theorem buildRegistry_unjoined_bookkeeping :
    let minted := [accountModel, ledgerModel].flatMap
      (Generator.ofModels [accountModel, ledgerModel]).minted
    (∀ name category, (buildRegistry [] bookkeeping (.given {}) none).outcome ≠
        .error (.nameTaken name category)) ∧
      ToldApart minted ∧ minted.length = 3 ∧
      ∀ t ∈ minted, (t.name == .text "Viewer") = false ∧ (t.name == .text "Account") = false := by
  intro minted
  have hload : (loadModels bookkeeping).outcome = .ok [accountModel, ledgerModel] :=
    loadModels_read [accountModel, ledgerModel]
  have hunjoined : ∀ models settings, (loadModels bookkeeping).outcome = .ok models →
      (SettingsSource.given {}).load = .ok settings → Unjoined models settings.rootTypeName := by
    intro models settings hm hs
    cases hload.symm.trans hm
    cases hs
    exact unjoined_bookkeeping
  obtain ⟨hclash, hminted⟩ := buildRegistry_unjoined [] bookkeeping (.given {}) none hunjoined
  obtain ⟨hapart, hother⟩ := hminted _ _ hload rfl
  refine ⟨hclash, hapart, by decide +kernel, fun t ht => ?_⟩
  obtain ⟨hroot, hmodels⟩ := hother t ht
  exact ⟨hroot, hmodels accountModel List.mem_cons_self⟩

end ModelSchema
