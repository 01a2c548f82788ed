import ModelSchema.Proofs.Declaration.Rewordings

/-!
# Models in other words

The parts of a model that are read by name are the model itself, its definition, its settings, its
relations with what they lead to, and the descriptions of its properties. What is nested in the type
of a property is no such part: it is kept. Main statement: models that are described in other words
load as the same models with the same events, or both loads end at a model without a name.
-/

namespace ModelSchema

variable {v w : Value} {name : String} {slots : List (List String)}
  {alike : String → Value → Value → Prop} {α β : Type}

/-- The aliases of the name of a model. -/
def modelNameSlot : List String := ["model_name", "modelName", "name"]

def pluralSlot : List String := ["plural_model_name", "pluralModelName", "plural"]

/-- The aliases of the model that a relation leads to. -/
def targetSlot : List String := ["model_to", "modelTo", "model"]

def generatorSlot : List String := ["default_fn", "defaultFn"]

/-- The settings of a model in other words. -/
def SettingsReworded : Value → Value → Prop := Reworded [] fun _ v w => v = w

/-- What a relation leads to in other words. -/
def TargetReworded : Value → Value → Prop := Reworded [modelNameSlot] fun _ v w => v = w

/-- A relation in other words; what it leads to may be reworded too. -/
def RelationReworded : Value → Value → Prop :=
  Reworded [targetSlot] fun name v w => v = w ∨ name ∈ targetSlot ∧ TargetReworded v w

/-- The description of a property in other words. It has a type, which stays as it is. -/
structure PropertyReworded (v w : Value) : Prop where
  typed : (v.member? "type").isSome = true
  reworded : Reworded [generatorSlot] (fun _ v w => v = w) v w

/-- A mapping of which some of the values are reworded. -/
def TableReworded (reworded : Value → Value → Prop) (v w : Value) : Prop :=
  ∃ entries entries', v.entries? = some entries ∧ w.entries? = some entries' ∧
    List.Forall₂ (fun entry entry' => entry'.1 = entry.1 ∧
      (entry.2 = entry'.2 ∨ reworded entry.2 entry'.2)) entries entries'

/-- A part of a model, or of its definition, that is kept or reworded. -/
def DefinedAlike (name : String) (v w : Value) : Prop :=
  v = w ∨ name = "settings" ∧ SettingsReworded v w ∨
    name = "properties" ∧ TableReworded PropertyReworded v w ∨
      name = "relations" ∧ TableReworded RelationReworded v w

/-- The nested definition of a model in other words. -/
def DefinitionReworded : Value → Value → Prop := Reworded [] DefinedAlike

/-- A part of a model that is kept or reworded. -/
def PartAlike (name : String) (v w : Value) : Prop :=
  DefinedAlike name v w ∨ name = "definition" ∧ DefinitionReworded v w

/-- The description of a model in other words. -/
def ModelReworded : Value → Value → Prop := Reworded [modelNameSlot, pluralSlot] PartAlike

/-- What a model is loaded from, as it is or in other words. -/
inductive ModelSource.Reworded : ModelSource → ModelSource → Prop
  | same (source : ModelSource) : Reworded source source
  | described {raw raw' : Value} : ModelReworded raw raw' →
    Reworded (.described raw) (.described raw')

namespace DefinedAlike

theorem refl (name : String) (v : Value) : DefinedAlike name v v := .inl rfl

theorem eq_of_kept (h : DefinedAlike name v w)
    (hname : name ∉ ["settings", "properties", "relations"]) : v = w := by
  rcases h with h | ⟨rfl, -⟩ | ⟨rfl, -⟩ | ⟨rfl, -⟩
  · exact h
  · exact absurd hname (by decide)
  · exact absurd hname (by decide)
  · exact absurd hname (by decide)

theorem settings (h : DefinedAlike "settings" v w) : v = w ∨ SettingsReworded v w := by
  rcases h with h | ⟨-, h⟩ | ⟨he, -⟩ | ⟨he, -⟩
  · exact .inl h
  · exact .inr h
  · exact absurd he (by decide)
  · exact absurd he (by decide)

theorem properties (h : DefinedAlike "properties" v w) :
    v = w ∨ TableReworded PropertyReworded v w := by
  rcases h with h | ⟨he, -⟩ | ⟨-, h⟩ | ⟨he, -⟩
  · exact .inl h
  · exact absurd he (by decide)
  · exact .inr h
  · exact absurd he (by decide)

theorem relations (h : DefinedAlike "relations" v w) :
    v = w ∨ TableReworded RelationReworded v w := by
  rcases h with h | ⟨he, -⟩ | ⟨he, -⟩ | ⟨-, h⟩
  · exact .inl h
  · exact absurd he (by decide)
  · exact absurd he (by decide)
  · exact .inr h

end DefinedAlike

theorem PartAlike.eq_of_kept (h : PartAlike name v w)
    (hname : name ∉ ["definition", "settings", "properties", "relations"]) : v = w := by
  rcases h with h | ⟨rfl, -⟩
  · exact h.eq_of_kept fun hmem => hname (List.mem_cons_of_mem _ hmem)
  · exact absurd List.mem_cons_self hname

theorem Value.Says.modelName?_eq {rows : List (Value × Value)} (h : v.Says rows) :
    modelName? v =
      if (v.read modelNameSlot).isTrue then some (v.read modelNameSlot).plain else none := by
  cases h with
  | mapping hrows =>
    cases v with
    | mapping _ | knot _ _ _ _ => rfl
    | _ => cases hrows
  | object attributes => rfl

theorem modelName?_reworded (h : Reworded slots alike v w)
    (hslot : ∀ slot ∈ slots, slot = modelNameSlot ∨ ∀ name ∈ modelNameSlot, name ∉ slot)
    (halike : ∀ name ∈ modelNameSlot, ∀ a b, alike name a b → a = b) :
    modelName? v = modelName? w := by
  have hread := h.read_eq (by decide) hslot halike
  obtain ⟨rows, rows', rename, hv, hw, -, -⟩ := h
  rw [hv.modelName?_eq, hw.modelName?_eq, hread]

theorem readRelation_reworded (h : RelationReworded v w) (model : String) (key : Value) :
    Model.readRelation model key v = Model.readRelation model key w := by
  have hkept : ∀ name, IsPlainName name → name ∉ targetSlot →
      v.firstMember? [name] = w.firstMember? [name] := by
    intro name hplain hname
    apply h.firstMember?_eq hplain (by simpa using hname)
    rintro a b (hab | ⟨hmem, -⟩)
    · exact hab
    · exact absurd hmem hname
  have htarget : modelName? (v.read targetSlot) = modelName? (w.read targetSlot) := by
    apply h.read_congr (by decide) (by decide)
    rintro name - a b (hab | ⟨-, hab⟩)
    · rw [hab]
    · exact modelName?_reworded hab (by decide) fun _ _ _ _ he => he
  have hembed : v.read ["embed"] = w.read ["embed"] := by
    rw [Value.read, Value.read, hkept "embed" (by decide) (by decide)]
  unfold targetSlot at htarget
  unfold Model.readRelation
  rw [hkept "type" (by decide) (by decide), hkept "name" (by decide) (by decide), htarget, hembed]

theorem readRelations_reworded {entries entries' : List (Value × Value)} (model : String)
    (h : List.Forall₂ (fun entry entry' => entry'.1 = entry.1 ∧
      (entry.2 = entry'.2 ∨ RelationReworded entry.2 entry'.2)) entries entries') :
    Model.readRelations model entries = Model.readRelations model entries' := by
  induction h with
  | nil => rfl
  | @cons entry entry' _ _ hentry _ ih =>
    obtain ⟨key, raw⟩ := entry
    obtain ⟨key', raw'⟩ := entry'
    obtain ⟨hkey, hraw⟩ := hentry
    dsimp only at hkey hraw
    have hread : Model.readRelation model key raw = Model.readRelation model key raw' := by
      rcases hraw with hraw | hraw
      · rw [hraw]
      · exact readRelation_reworded hraw model key
    rw [Model.readRelations, Model.readRelations, hkey, hread, ih]

theorem Property.ofValue_reworded (h : PropertyReworded v w) (key : Value) :
    Property.ofValue key v = Property.ofValue key w := by
  obtain ⟨htyped, h⟩ := h
  have hkept : ∀ name, IsPlainName name → name ∉ generatorSlot →
      v.firstMember? [name] = w.firstMember? [name] := by
    intro name hplain hname
    exact h.firstMember?_eq hplain (by simpa using hname) fun _ _ he => he
  have htype : v.member? "type" = w.member? "type" := by
    have hfound := hkept "type" (by decide) (by decide)
    simpa [Value.firstMember?] using hfound
  have hgenerator : v.read generatorSlot = w.read generatorSlot :=
    h.read_eq (by decide) (by decide) fun _ _ _ _ he => he
  have hdescription : Property.ofDescription key v = Property.ofDescription key w := by
    unfold generatorSlot at hgenerator
    unfold Property.ofDescription
    rw [hgenerator]
    unfold Value.read
    rw [hkept "type" (by decide) (by decide), hkept "enum" (by decide) (by decide),
      hkept "required" (by decide) (by decide), hkept "deprecated" (by decide) (by decide),
      hkept "description" (by decide) (by decide)]
  obtain ⟨type, hv⟩ := Option.isSome_iff_exists.mp htyped
  have hw : w.member? "type" = some type := htype.symm.trans hv
  unfold Property.ofValue
  rw [hv, hw]
  exact hdescription

theorem Property.ofEntries_reworded {entries entries' : List (Value × Value)}
    (h : List.Forall₂ (fun entry entry' => entry'.1 = entry.1 ∧
      (entry.2 = entry'.2 ∨ PropertyReworded entry.2 entry'.2)) entries entries') :
    Property.ofEntries entries = Property.ofEntries entries' := by
  induction h with
  | nil => rfl
  | @cons entry entry' _ _ hentry _ ih =>
    obtain ⟨key, raw⟩ := entry
    obtain ⟨key', raw'⟩ := entry'
    obtain ⟨hkey, hraw⟩ := hentry
    dsimp only at hkey hraw
    have hread : Property.ofValue key raw = Property.ofValue key raw' := by
      rcases hraw with hraw | hraw
      · rw [hraw]
      · exact Property.ofValue_reworded hraw key
    rw [Property.ofEntries, Property.ofEntries, hkey, hread, ih]

theorem items_reworded {reworded : Value → Value → Prop} (h : TableReworded reworded v w) :
    ∃ entries entries', v.items = .ok entries ∧ w.items = .ok entries' ∧
      List.Forall₂ (fun entry entry' => entry'.1 = entry.1 ∧
        (entry.2 = entry'.2 ∨ reworded entry.2 entry'.2)) entries entries' := by
  obtain ⟨entries, entries', hv, hw, hrows⟩ := h
  exact ⟨entries, entries', Value.items_of_entries hv, Value.items_of_entries hw, hrows⟩

theorem Property.ofMapping_reworded (h : v = w ∨ TableReworded PropertyReworded v w) :
    Property.ofMapping v = Property.ofMapping w := by
  rcases h with rfl | h
  · rfl
  · obtain ⟨entries, entries', hv, hw, hrows⟩ := items_reworded h
    unfold Property.ofMapping
    rw [hv, hw]
    exact Property.ofEntries_reworded hrows

/-- Two computations end alike: with the same events and the same outcome, or both for want of a
name. -/
inductive ReadsAlike : Traced α → Traced α → Prop
  | same (x : Traced α) : ReadsAlike x x
  | nameless (events : List Event) (raw raw' : Value) :
    ReadsAlike ⟨events, .error (.namelessModel raw)⟩ ⟨events, .error (.namelessModel raw')⟩

theorem ReadsAlike.bind {x y : Traced α} {f g : α → Traced β} (h : ReadsAlike x y)
    (hf : ∀ a, ReadsAlike (f a) (g a)) : ReadsAlike (x >>= f) (y >>= g) := by
  cases h with
  | nameless events raw raw' => exact .nameless events raw raw'
  | same x =>
    obtain ⟨events, outcome⟩ := x
    cases outcome with
    | error e => exact .same _
    | ok a =>
      have hfg := hf a
      change ReadsAlike ⟨events ++ (f a).events, (f a).outcome⟩
        ⟨events ++ (g a).events, (g a).outcome⟩
      generalize f a = y at hfg ⊢
      generalize g a = z at hfg ⊢
      cases hfg with
      | same _ => exact .same _
      | nameless more raw raw' => exact .nameless (events ++ more) raw raw'

theorem Value.Says.ne_null {rows : List (Value × Value)} (h : v.Says rows) : v ≠ .null := by
  rintro rfl
  cases h with
  | mapping hrows => cases hrows

theorem TableReworded.ne_null {reworded : Value → Value → Prop} (h : TableReworded reworded v w) :
    v ≠ .null ∧ w ≠ .null := by
  obtain ⟨_, _, hv, hw, -⟩ := h
  constructor
  · rintro rfl
    cases hv
  · rintro rfl
    cases hw

theorem nested_reworded (hplain : IsPlainName name) : DefinitionReworded v w →
    Option.Rel (DefinedAlike name)
      (match v with
        | .null => none
        | definition => definition.firstMember? [name])
      (match w with
        | .null => none
        | definition => definition.firstMember? [name]) := by
  intro h
  obtain ⟨hv, hw⟩ : v ≠ .null ∧ w ≠ .null := by
    obtain ⟨_, _, _, hv, hw, -, -⟩ := h
    exact ⟨hv.ne_null, hw.ne_null⟩
  have hrel : Option.Rel (DefinedAlike name) (v.firstMember? [name]) (w.firstMember? [name]) := by
    apply rel_imp (h.firstMember? (by simpa using hplain) (by simp))
    rintro a b ⟨other, hother, hab⟩
    rw [List.mem_singleton.mp hother] at hab
    exact hab
  split
  · exact absurd rfl hv
  · exact hrel

theorem Model.readName_of_named (h : modelName? v = some name) (hne : name ≠ "") :
    Model.readName v = .ok name := by
  unfold Model.readName
  rw [h]
  exact if_neg hne

theorem Model.ofValue_of_nameless (h : ∀ name, modelName? v = some name → name = "") :
    Model.ofValue v = ⟨[], .error (.namelessModel v)⟩ := by
  have hname : Model.readName v = .error (.namelessModel v) := by
    unfold Model.readName
    cases hv : modelName? v with
    | none => rfl
    | some name => exact if_pos (h name hv)
  unfold Model.ofValue
  rw [hname]
  rfl

section Model

variable (h : ModelReworded v w)
include h

theorem slot_of_reworded {names : List String} (hplain : ∀ name ∈ names, IsPlainName name)
    (hslot : ∀ slot ∈ [modelNameSlot, pluralSlot], slot = names ∨ ∀ name ∈ names, name ∉ slot)
    (hnames : ∀ name ∈ names, name ∉ ["definition", "settings", "properties", "relations"]) :
    v.read names = w.read names :=
  h.read_eq hplain hslot fun name hname _ _ hab => hab.eq_of_kept (hnames name hname)

theorem own_reworded (hplain : IsPlainName name)
    (hslot : ∀ slot ∈ [modelNameSlot, pluralSlot], name ∉ slot) (hname : name ≠ "definition") :
    Option.Rel (DefinedAlike name) (v.firstMember? [name]) (w.firstMember? [name]) := by
  have hapart : ∀ slot ∈ [modelNameSlot, pluralSlot],
      slot = [name] ∨ ∀ other ∈ [name], other ∉ slot := by
    intro slot hs
    right
    simpa using hslot slot hs
  apply rel_imp (h.firstMember? (by simpa using hplain) hapart)
  rintro a b ⟨other, hother, hab⟩
  rw [List.mem_singleton.mp hother] at hab
  exact hab.resolve_right fun hd => hname hd.1

theorem definition_reworded (hplain : IsPlainName name) :
    Option.Rel (DefinedAlike name)
      (match v.read ["definition"] with
        | .null => none
        | definition => definition.firstMember? [name])
      (match w.read ["definition"] with
        | .null => none
        | definition => definition.firstMember? [name]) := by
  have hread : Option.Rel (fun a b => a = b ∨ DefinitionReworded a b)
      (v.firstMember? ["definition"]) (w.firstMember? ["definition"]) := by
    apply rel_imp (h.firstMember? (by decide) (by decide))
    rintro a b ⟨other, hother, hab⟩
    rw [List.mem_singleton.mp hother] at hab
    rcases hab with hab | ⟨-, hab⟩
    · exact .inl (hab.eq_of_kept (by decide))
    · exact .inr hab
  unfold Value.read
  generalize v.firstMember? ["definition"] = x at hread ⊢
  generalize w.firstMember? ["definition"] = y at hread ⊢
  cases hread with
  | none => exact .none
  | @some a b hab =>
    rcases hab with rfl | hab
    · exact rel_refl (DefinedAlike.refl name) _
    · exact nested_reworded hplain hab

theorem defined?_reworded (hname : name ∈ ["settings", "properties", "relations", "description"]) :
    Option.Rel (DefinedAlike name) (v.firstMember? [name]) (w.firstMember? [name]) ∧
      Option.Rel (DefinedAlike name) (Model.defined? v [name]) (Model.defined? w [name]) := by
  have hnames : ∀ n ∈ ["settings", "properties", "relations", "description"], IsPlainName n ∧
      (∀ slot ∈ [modelNameSlot, pluralSlot], n ∉ slot) ∧ n ≠ "definition" := by decide
  obtain ⟨hplain, hslot, hdefinition⟩ := hnames name hname
  have hown := own_reworded h hplain hslot hdefinition
  refine ⟨hown, ?_⟩
  unfold Model.defined?
  generalize v.firstMember? [name] = x at hown ⊢
  generalize w.firstMember? [name] = y at hown ⊢
  cases hown with
  | none => exact definition_reworded h hplain
  | some hab => exact .some hab

theorem readHidden_reworded : Model.readHidden v = Model.readHidden w := by
  have hhidden : v.read ["hidden"] = w.read ["hidden"] :=
    slot_of_reworded h (by decide) (by decide) (by decide)
  have hsettings : ∀ a b, DefinedAlike "settings" a b →
      (if a.isTrue then a.read ["hidden"] else .null) =
        (if b.isTrue then b.read ["hidden"] else .null) := by
    intro a b hab
    rcases hab.settings with rfl | hab
    · rfl
    · have hplain : ∀ name ∈ ["hidden"], IsPlainName name := by decide
      obtain ⟨ha, hb⟩ := hab.read_of_isTrue hplain
      rw [ha, hb]
      exact hab.read_eq (by decide) (by decide) fun _ _ _ _ he => he
  have hdefined := getD_congr_of_rel (defined?_reworded h (by decide)).2 hsettings .null
  unfold Model.readHidden
  dsimp only
  rw [hhidden, hdefined]

theorem readProperties_reworded :
    Property.ofMapping ((Model.defined? v ["properties"]).getD .null) =
      Property.ofMapping ((Model.defined? w ["properties"]).getD .null) := by
  apply getD_congr_of_rel (defined?_reworded h (by decide)).2
  intro a b hab
  exact Property.ofMapping_reworded hab.properties

theorem rawRelations_reworded : Model.rawRelations v = Model.rawRelations w ∨
    TableReworded RelationReworded (Model.rawRelations v) (Model.rawRelations w) := by
  have hrelations : "relations" ∈ ["settings", "properties", "relations", "description"] := by
    decide
  obtain ⟨hown, hdefined⟩ := defined?_reworded h hrelations
  have helse : (Model.defined? v ["relations"]).getD .null =
        (Model.defined? w ["relations"]).getD .null ∨
      TableReworded RelationReworded ((Model.defined? v ["relations"]).getD .null)
        ((Model.defined? w ["relations"]).getD .null) := by
    generalize Model.defined? v ["relations"] = x at hdefined ⊢
    generalize Model.defined? w ["relations"] = y at hdefined ⊢
    cases hdefined with
    | none => exact .inl rfl
    | some hab => exact hab.relations
  -- relations that are null in the model itself count as missing, and null is never reworded
  unfold Model.rawRelations Value.read
  generalize v.firstMember? ["relations"] = x at hown ⊢
  generalize w.firstMember? ["relations"] = y at hown ⊢
  cases hown with
  | none => exact helse
  | @some a b hab =>
    rw [Option.getD_some, Option.getD_some]
    rcases hab.relations with rfl | hab
    · split
      · exact helse
      · exact .inl rfl
    · obtain ⟨ha, hb⟩ := hab.ne_null
      split
      · exact absurd rfl ha
      · exact .inr hab

theorem readRelations_of_reworded (model : String)
    (f : List (Value × Relation) → Traced α) :
    ((liftM (Model.rawRelations v).items : Traced _) >>= fun entries =>
      Model.readRelations model entries >>= f) =
        ((liftM (Model.rawRelations w).items : Traced _) >>= fun entries =>
          Model.readRelations model entries >>= f) := by
  rcases rawRelations_reworded h with hsame | htable
  · rw [hsame]
  · obtain ⟨entries, entries', hv, hw, hrows⟩ := items_reworded htable
    rw [hv, hw]
    change Traced.bind ⟨[], .ok entries⟩ _ = Traced.bind ⟨[], .ok entries'⟩ _
    unfold Traced.bind
    dsimp only
    rw [readRelations_reworded model hrows]

/-- The description of a model in other words reads as the same model, if it has a name. -/
theorem ofValue_reworded : ReadsAlike (Model.ofValue v) (Model.ofValue w) := by
  have hapart : ∀ name ∈ modelNameSlot,
      name ∉ ["definition", "settings", "properties", "relations"] := by decide
  have hname : modelName? v = modelName? w := by
    apply modelName?_reworded h (by decide)
    intro name hname a b hab
    exact hab.eq_of_kept (hapart name hname)
  by_cases hnamed : ∃ name, modelName? w = some name ∧ name ≠ ""
  · obtain ⟨name, hw, hne⟩ := hnamed
    have hplural : ∀ name, Model.readPlural name v = Model.readPlural name w := by
      intro name
      have hread : v.read pluralSlot = w.read pluralSlot :=
        slot_of_reworded h (by decide) (by decide) (by decide)
      unfold pluralSlot at hread
      unfold Model.readPlural
      rw [hread]
    have hshared : v.read ["shared"] = w.read ["shared"] :=
      slot_of_reworded h (by decide) (by decide) (by decide)
    have hdescription : Model.defined? v ["description"] = Model.defined? w ["description"] := by
      apply eq_of_rel (defined?_reworded h (by decide)).2
      intro a b hab
      exact hab.eq_of_kept (by decide)
    have heq : Model.ofValue v = Model.ofValue w := by
      unfold Model.ofValue
      simp only [Model.readName_of_named (hname.trans hw) hne, Model.readName_of_named hw hne,
        readProperties_reworded h, readHidden_reworded h, readRelations_of_reworded h, hplural,
        hshared, hdescription]
    rw [heq]
    exact .same _
  · have hnameless : ∀ name, modelName? w = some name → name = "" := by
      intro name hw
      by_contra hne
      exact hnamed ⟨name, hw, hne⟩
    have hnameless' : ∀ name, modelName? v = some name → name = "" := by
      intro name hv
      exact hnameless name (hname.symm.trans hv)
    rw [Model.ofValue_of_nameless hnameless, Model.ofValue_of_nameless hnameless']
    exact .nameless [] v w

end Model

theorem ModelSource.load_reworded {source source' : ModelSource}
    (h : ModelSource.Reworded source source') : ReadsAlike source.load source'.load := by
  cases h with
  | same _ => exact .same _
  | described hraw => exact ofValue_reworded hraw

/-- Models in other words are loaded alike. -/
theorem loadModels_reworded {sources sources' : List ModelSource}
    (h : List.Forall₂ ModelSource.Reworded sources sources') :
    ReadsAlike (loadModels sources) (loadModels sources') := by
  induction h with
  | nil => exact .same _
  | cons hsource _ ih =>
    unfold loadModels
    apply ReadsAlike.bind (ModelSource.load_reworded hsource)
    intro m
    apply ReadsAlike.bind ih
    intro models
    exact .same _

/-- An invoice that belongs to an order, in mappings. -/
def mappedInvoice : Value :=
  .mapping
    [(.text "name", .text "Invoice"),
     (.text "definition", .mapping
        [(.text "properties", .mapping
            [(.text "amount", .mapping
                [(.text "type", .text "date"), (.text "default_fn", .text "now")])])]),
     (.text "relations", .mapping
        [(.text "order", .mapping
            [(.text "type", .text "belongsTo"),
             (.text "model", .mapping [(.text "name", .text "Order")])])])]

/-- The same invoice in attribute objects, with the other aliases of its names. -/
def attributedInvoice : Value :=
  .object
    [("modelName", .text "Invoice"),
     ("definition", .object
        [("properties", .mapping
            [(.text "amount", .object [("type", .text "date"), ("defaultFn", .text "now")])])]),
     ("relations", .mapping
        [(.text "order", .object
            [("type", .text "belongsTo"), ("modelTo", .object [("name", .text "Order")])])])]

theorem loadModels_reworded_invoice :
    List.Forall₂ ModelSource.Reworded [.described mappedInvoice] [.described attributedInvoice] ∧
      ReadsAlike (loadModels [.described mappedInvoice])
        (loadModels [.described attributedInvoice]) ∧
      (loadModels [.described attributedInvoice]).outcome.isOk = true := by
  have htarget : TargetReworded (.mapping [(.text "name", .text "Order")])
      (.object [("name", .text "Order")]) :=
    Reworded.ofAttributes [("name", .text "Order")] fun _ _ => rfl
  have hrelation : RelationReworded
      (.mapping [(.text "type", .text "belongsTo"),
        (.text "model", .mapping [(.text "name", .text "Order")])])
      (.object [("type", .text "belongsTo"), ("modelTo", .object [("name", .text "Order")])]) := by
    refine ⟨_, _, respelled "model" "modelTo", .mapping rfl, .object _, ?_, ?_⟩
    · apply renames_respelled List.mem_cons_self <;> simp [targetSlot]
    · exact .cons (.named (.inl rfl)) (.cons (.named (.inr ⟨by decide, htarget⟩)) .nil)
  have hproperty : PropertyReworded
      (.mapping [(.text "type", .text "date"), (.text "default_fn", .text "now")])
      (.object [("type", .text "date"), ("defaultFn", .text "now")]) := by
    refine ⟨rfl, _, _, respelled "default_fn" "defaultFn", .mapping rfl, .object _, ?_, ?_⟩
    · apply renames_respelled List.mem_cons_self <;> simp [generatorSlot]
    · exact .cons (.named rfl) (.cons (.named rfl) .nil)
  have hmodel : ModelReworded mappedInvoice attributedInvoice := by
    refine ⟨_, _, respelled "name" "modelName", .mapping rfl, .object _, ?_, ?_⟩
    · apply renames_respelled List.mem_cons_self <;> simp [modelNameSlot]
    · refine .cons (.named (.inl (.inl rfl))) (.cons (.named (.inr ⟨rfl, ?_⟩))
        (.cons (.named (.inl (.inr (.inr (.inr ⟨rfl, ?_⟩))))) .nil))
      · refine ⟨_, _, id, .mapping rfl, .object _, fun _ _ _ => .inl rfl, .cons (.named ?_) .nil⟩
        exact .inr (.inr (.inl ⟨rfl, _, _, rfl, rfl, .cons ⟨rfl, .inr hproperty⟩ .nil⟩))
      · exact ⟨_, _, rfl, rfl, .cons ⟨rfl, .inr hrelation⟩ .nil⟩
  have hsources : List.Forall₂ ModelSource.Reworded [.described mappedInvoice]
      [.described attributedInvoice] := .cons (.described hmodel) .nil
  exact ⟨hsources, loadModels_reworded hsources, by decide +kernel⟩

end ModelSchema
