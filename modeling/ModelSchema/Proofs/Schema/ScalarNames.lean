import ModelSchema.Proofs.Schema.DerivedNames
import ModelSchema.Proofs.Schema.HiddenFields
import ModelSchema.Proofs.Schema.References
import ModelSchema.Proofs.Schema.Unions

/-!
# Names of scalar kinds and names of types

Fields and unions refer to scalar kinds and to types alike, by name. Types that are made for
properties have an underscore in their names and scalar kinds have none, but nothing keeps the root
type or a model from bearing the name of a kind. Main statement: those that do are the only types of
a built registry that are named like a kind. Only a part that declares the kind and a part that
names the model come to the same member of a union; only the name of such a kind has two meanings.
-/

namespace ModelSchema

variable {known parts members : List String} {part n : String} {m : Model} {s : Surroundings}
  {o : Owner} {p : Property} {c : Compiled} {t : TypeDescriptor} {g : Generator} {r : Registry}

/-- What a name can stand for: a scalar kind, or the type that bears it. -/
inductive Target where
  | scalar (kind : ScalarKind)
  | type (name : String)
  deriving DecidableEq

namespace Target

def name : Target → String
  | .scalar kind => kind.name
  | .type name => name

/-- What a part of a union stands for, if it stands for anything. -/
def ofPart? (known : List String) (part : String) : Option Target :=
  match ScalarKind.ofDeclared? part with
  | some kind => some (.scalar kind)
  | none => if part ∈ known then some (.type part) else none

/-- A part and another stand for a scalar kind and for a model that bears its name. -/
def Collide (known : List String) (a b : Target) : Prop :=
  ∃ kind : ScalarKind, kind.name ∈ known ∧ ScalarKind.ofDeclared? kind.name = none ∧
    (a = .scalar kind ∧ b = .type kind.name ∨ a = .type kind.name ∧ b = .scalar kind)

theorem unionMember?_eq (known : List String) (part : String) :
    unionMember? known part = (ofPart? known part).map name := by
  unfold unionMember? ofPart?
  cases ScalarKind.ofDeclared? part with
  | some kind => rfl
  | none =>
    dsimp only
    simp only [List.contains_iff_mem]
    split <;> rfl

theorem ofPart?_eq_type {name : String} (h : ofPart? known part = some (.type name)) :
    name ∈ known ∧ ScalarKind.ofDeclared? name = none := by
  unfold ofPart? at h
  cases hkind : ScalarKind.ofDeclared? part with
  | some kind =>
    rw [hkind] at h
    cases h
  | none =>
    rw [hkind] at h
    dsimp only at h
    split at h
    · rename_i hknown
      cases h
      exact ⟨hknown, hkind⟩
    · cases h

/-- Parts that stand for different things are called differently, unless one is a scalar kind and
the other a model that bears its name. -/
theorem eq_or_collide {part' : String} {a b : Target} (ha : ofPart? known part = some a)
    (hb : ofPart? known part' = some b) (h : a.name = b.name) : a = b ∨ Collide known a b := by
  cases a with
  | scalar kind =>
    cases b with
    | scalar kind' =>
      left
      rw [ScalarKind.name_injective h]
    | type name =>
      right
      have hname : name = kind.name := h.symm
      subst hname
      obtain ⟨hknown, hundeclared⟩ := ofPart?_eq_type hb
      exact ⟨kind, hknown, hundeclared, .inl ⟨rfl, rfl⟩⟩
  | type name =>
    cases b with
    | scalar kind =>
      right
      have hname : name = kind.name := h
      subst hname
      obtain ⟨hknown, hundeclared⟩ := ofPart?_eq_type ha
      exact ⟨kind, hknown, hundeclared, .inr ⟨rfl, rfl⟩⟩
    | type name' =>
      left
      have hname : name = name' := h
      rw [hname]

end Target

/-- The parts of a union stand for the given targets, one by one. -/
def StandFor (known : List String) : List String → List Target → Prop :=
  List.Forall₂ fun part target => Target.ofPart? known part = some target

theorem StandFor.exists_part {targets : List Target} (h : StandFor known parts targets)
    {target : Target} (ht : target ∈ targets) :
    ∃ part, Target.ofPart? known part = some target := by
  induction h with
  | nil => cases ht
  | cons hfirst _ ih =>
    rcases List.mem_cons.mp ht with rfl | ht
    · exact ⟨_, hfirst⟩
    · exact ih ht

theorem exists_targets_of_unionMembers (h : unionMembers known parts = .ok members) :
    ∃ targets, StandFor known parts targets ∧ members = targets.map Target.name := by
  have hall := unionMembers_ok_iff.mp h
  clear h
  induction hall with
  | nil => exact ⟨[], .nil, rfl⟩
  | cons hmember _ ih =>
    rw [Target.unionMember?_eq] at hmember
    obtain ⟨target, htarget, hname⟩ := Option.map_eq_some_iff.mp hmember
    obtain ⟨targets, htargets, hnames⟩ := ih
    exact ⟨target :: targets, .cons htarget htargets, by rw [List.map_cons, hname, hnames]⟩

/-- A union belongs to a declared property, and its members are what the parts of the declared type
stand for. -/
def TypeDescriptor.UnitesParts (m : Model) (known : List String) (t : TypeDescriptor)
    (targets : List Target) : Prop :=
  ∃ (owner : String) (q : Property), m.Declares owner q ∧
    t.name = .text (derivedName owner q.name) ∧
    StandFor known q.type.itemType.referenceNames targets ∧
    t.members = (targets.map Target.name).eraseDups

theorem Compiles.unitesParts (h : Compiles s o p c) (hp : m.Declares o.name p) (ht : t ∈ c.types)
    (hcategory : t.category = .union) : ∃ targets, t.UnitesParts m s.knownModels targets := by
  induction h generalizing t with
  | deprecated _ | unresolved _ | scalar _ _ | reference _ _ _ => cases ht
  | enumeration _ _ _ =>
    rw [List.mem_singleton.mp ht] at hcategory
    cases hcategory
  | @union o p members _ _ hmembers =>
    rw [List.mem_singleton.mp ht]
    obtain ⟨targets, htargets, rfl⟩ := exists_targets_of_unionMembers hmembers
    exact ⟨targets, o.name, p, hp, rfl, htargets, rfl⟩
  | nested _ _ _ hitem hrows _ _ ih =>
    rcases List.mem_append.mp ht with ht | ht
    · obtain ⟨q, hq, hin⟩ := mem_madeTypes.mp ht
      obtain ⟨row, hrow, rfl⟩ := List.mem_map.mp hq
      exact ih row hrow (.inside hp hitem hrows hrow) hin hcategory
    · rw [List.mem_singleton.mp ht] at hcategory
      cases hcategory

namespace Generator

theorem exists_unitesParts_of_mem_plan (ht : t ∈ g.plan) (hcategory : t.category = .union) :
    ∃ m ∈ g.models, ∃ targets, t.UnitesParts m g.surroundings.knownModels targets := by
  rcases List.mem_cons.mp ht with rfl | ht
  · cases hcategory
  · obtain ⟨m, hm, ht⟩ := List.mem_flatMap.mp ht
    obtain ⟨fields, types, hd, heq⟩ := exists_draft_of_mem_typesOf ht
    rw [heq] at ht
    refine ⟨m, (mem_of_mem_newModels hm).1, ?_⟩
    rcases List.mem_append.mp ht with ht | ht
    · obtain ⟨result, hall, rfl, -⟩ := compiles_of_draft hd
      obtain ⟨q, hq, hin⟩ := mem_madeTypes.mp ht
      exact (hall q hq).unitesParts (.own hq) hin hcategory
    · rw [List.mem_singleton.mp ht] at hcategory
      cases hcategory

/-- The root type or a model of the run bears a name. -/
def Bears (g : Generator) (n : String) : Prop :=
  g.settings.rootTypeName = .text n ∨ n ∈ g.models.map Model.name

theorem underscore_mem_of_below {base : String} (h : Below base n) (hne : n ≠ base) :
    '_' ∈ n.toList := by
  obtain ⟨rest, hname, hrest⟩ := h
  cases rest with
  | nil =>
    rw [List.append_nil] at hname
    exact absurd (String.toList_inj.mp hname) hne
  | cons c rest =>
    rw [hname, hrest c rfl]
    exact List.mem_append_right _ List.mem_cons_self

theorem bears_of_mem_plan (ht : t ∈ g.plan) (hname : t.name = .text n) (hn : '_' ∉ n.toList) :
    g.Bears n := by
  rcases List.mem_cons.mp ht with rfl | ht
  · exact .inl hname
  · obtain ⟨m, hm, ht⟩ := List.mem_flatMap.mp ht
    obtain ⟨fields, types, hd, heq⟩ := exists_draft_of_mem_typesOf ht
    rw [heq, types_of_draft hd] at ht
    rcases List.mem_append.mp ht with ht | ht
    · obtain ⟨name, hname', hbelow, hne⟩ := minted_below ht
      rw [hname] at hname'
      cases hname'
      exact absurd (underscore_mem_of_below hbelow hne) hn
    · rw [List.mem_singleton.mp ht] at hname
      cases hname
      exact .inr (List.mem_map_of_mem (mem_of_mem_newModels hm).1)

end Generator

theorem underscore_notMem_name (kind : ScalarKind) : '_' ∉ kind.name.toList := by
  cases kind <;> decide

namespace Registry

theorem Realizes.find?_of_known (hr : r.Realizes g.plan)
    (hd : ∀ m ∈ g.firstModels, ∃ d, (g.draft m).outcome = .ok d)
    (hn : n ∈ g.models.map Model.name) : r.HasInputObject n := by
  obtain ⟨named, hm, rfl⟩ := List.mem_map.mp hn
  obtain ⟨first, hf, he⟩ := Generator.exists_newModel hm List.not_mem_nil
  rw [← he]
  exact .of_firstModel hr hf (hd first hf)

/-- A name without an underscore is registered exactly if the root type or a model bears it. -/
theorem Realizes.exists_find?_iff (hr : r.Realizes g.plan)
    (hroot : r.find? g.settings.rootTypeName = some (rootType g.models g.settings))
    (hd : ∀ m ∈ g.firstModels, ∃ d, (g.draft m).outcome = .ok d) (hn : '_' ∉ n.toList) :
    (∃ t, r.find? (.text n) = some t) ↔ g.Bears n := by
  constructor
  · rintro ⟨t, ht⟩
    obtain ⟨row, hrow, hkey, rfl⟩ := Table.mem_of_find? ht
    obtain ⟨planned, hplanned, rfl⟩ := hr.only row hrow
    have hname : planned.name = .text n := Value.eq_of_beq_text hkey
    exact Generator.bears_of_mem_plan hplanned hname hn
  · rintro (hname | hknown)
    · rw [hname] at hroot
      exact ⟨_, hroot⟩
    · obtain ⟨t, ht, -⟩ := hr.find?_of_known hd hknown
      exact ⟨t, ht⟩

/-- A name of a registry stands for a scalar kind or for a registered type. -/
def Denotes (r : Registry) (n : String) : Target → Prop
  | .scalar kind => n = kind.name
  | .type name => n = name ∧ ∃ t, r.find? (.text name) = some t

/-- A registry refers to a name: a member of one of its unions, or the type of a field. -/
def Mentions (r : Registry) (n : String) : Prop :=
  ∃ row ∈ r.types,
    row.2.category = .union ∧ n ∈ row.2.members ∨
      ∃ field ∈ row.2.fields, field.2.typeName = some n

/-- A name that stands for something stands for one thing only, unless it is a scalar kind and a
type that bear it. -/
theorem existsUnique_denotes_iff {target : Target} (h : r.Denotes n target) :
    (∃! target, r.Denotes n target) ↔
      ¬ ∃ kind : ScalarKind, n = kind.name ∧ ∃ t, r.find? (.text kind.name) = some t := by
  constructor
  · rintro ⟨only, -, honly⟩ ⟨kind, rfl, hfound⟩
    have hkind : Target.scalar kind = only := honly (.scalar kind) rfl
    have htype : Target.type kind.name = only := honly (.type kind.name) ⟨rfl, hfound⟩
    rw [← hkind] at htype
    cases htype
  · intro hfree
    refine ⟨target, h, fun other hother => ?_⟩
    cases target with
    | scalar kind =>
      cases other with
      | scalar kind' => rw [ScalarKind.name_injective (hother.symm.trans h)]
      | type name =>
        obtain ⟨rfl, hfound⟩ := hother
        have hname : n = kind.name := h
        exact absurd ⟨kind, hname, hname ▸ hfound⟩ hfree
    | type name =>
      obtain ⟨rfl, hfound⟩ := h
      cases other with
      | scalar kind =>
        have hname : n = kind.name := hother
        exact absurd ⟨kind, hname, hname ▸ hfound⟩ hfree
      | type name' => rw [hother.1]

theorem Realizes.denotes_of_mentions (hr : r.Realizes g.plan)
    (hd : ∀ m ∈ g.firstModels, ∃ d, (g.draft m).outcome = .ok d) (h : r.Mentions n) :
    ∃ target, r.Denotes n target := by
  have hknown : ∀ n ∈ g.surroundings.knownModels, r.Denotes n (.type n) := by
    intro n hn
    obtain ⟨t, ht, -⟩ := hr.find?_of_known hd hn
    exact ⟨rfl, t, ht⟩
  obtain ⟨row, hrow, h⟩ := h
  obtain ⟨planned, hplanned, rfl⟩ := hr.only row hrow
  have hclosed := Generator.plan_closed hplanned
  rcases h with ⟨-, hmember⟩ | ⟨field, hfield, htype⟩
  · rcases hclosed.members n hmember with ⟨kind, rfl⟩ | hn
    · exact ⟨.scalar kind, rfl⟩
    · exact ⟨_, hknown n hn⟩
  · cases hclosed.fields field hfield with
    | scalar kind _ _ _ hname _ =>
      rw [htype] at hname
      exact ⟨.scalar kind, Option.some.inj hname⟩
    | derived made name _ _ hmade hmadeName hname _ =>
      rw [htype] at hname
      cases hname
      obtain ⟨t, ht, -⟩ := hr.holds made hmade
      rw [hmadeName] at ht
      exact ⟨.type n, rfl, t, ht⟩
    | model name _ hn hname _ =>
      rw [htype] at hname
      cases hname
      exact ⟨_, hknown n hn⟩

end Registry

/-- The registered types that are named like a scalar kind are the root type or models that bear
that name. The members of a registered union are what the parts of a declared property stand for;
parts that stand for different things come to different members, unless one declares a scalar kind
and the other names a model that bears the name of the kind. Each member and each type of a field
stands for a scalar kind or a registered type, and for one only unless it is the name of a kind that
the root type or a model bears. -/
theorem buildRegistry_scalarNames {catalogue : LookupCatalogue} {sources : List ModelSource}
    {source : SettingsSource} {lookup : Option RelationLookup}
    (h : (buildRegistry catalogue sources source lookup).outcome = .ok r) :
    ∃ settings models,
      source.load = .ok settings ∧ (loadModels sources).outcome = .ok models ∧
        let known := models.map Model.name
        let borne := fun kind : ScalarKind =>
          settings.rootTypeName = .text kind.name ∨ kind.name ∈ known
        (∀ kind : ScalarKind, (∃ t, r.find? (.text kind.name) = some t) ↔ borne kind) ∧
          (∀ row ∈ r.types, row.2.category = .union →
            ∃ m ∈ models, ∃ targets, row.2.UnitesParts m known targets ∧
              ∀ a ∈ targets, ∀ b ∈ targets, a ≠ b → a.name = b.name → Target.Collide known a b) ∧
          ∀ n, r.Mentions n →
            (∃ target, r.Denotes n target) ∧
              ((∃! target, r.Denotes n target) ↔
                ¬ ∃ kind : ScalarKind, n = kind.name ∧ borne kind) := by
  obtain ⟨models, g, hm, hg, hd, hr, hroot⟩ := buildRegistry_realizes h
  obtain ⟨-, hmodels, hs⟩ := Generator.make_ok hg
  subst hmodels
  have hborne : ∀ kind : ScalarKind, (∃ t, r.find? (.text kind.name) = some t) ↔
      g.Bears kind.name :=
    fun kind => hr.exists_find?_iff hroot hd (underscore_notMem_name kind)
  refine ⟨g.settings, g.models, hs, hm, hborne, ?_, ?_⟩
  · intro row hrow hcategory
    obtain ⟨planned, hplanned, rfl⟩ := hr.only row hrow
    obtain ⟨m, hm, targets, hunites⟩ :=
      Generator.exists_unitesParts_of_mem_plan hplanned hcategory
    refine ⟨m, hm, targets, hunites, fun a ha b hb hne hname => ?_⟩
    obtain ⟨-, q, -, -, hstand, -⟩ := hunites
    obtain ⟨part, hpart⟩ := hstand.exists_part ha
    obtain ⟨part', hpart'⟩ := hstand.exists_part hb
    exact (Target.eq_or_collide hpart hpart' hname).resolve_left hne
  · intro n hn
    obtain ⟨target, htarget⟩ := hr.denotes_of_mentions hd hn
    refine ⟨⟨target, htarget⟩, (Registry.existsUnique_denotes_iff htarget).trans (not_congr ?_)⟩
    exact exists_congr fun kind => and_congr_right fun _ => hborne kind

/-- Neither the root type nor the account or the ledger is named like a scalar kind, so every name
in their registry stands for one thing. -/
theorem buildRegistry_scalarNames_bookkeeping :
    ∃ r, (buildRegistry [] bookkeeping (.given {}) none).outcome = .ok r ∧
      (∀ kind : ScalarKind, r.find? (.text kind.name) = none) ∧
      ∀ n, r.Mentions n → ∃! target, r.Denotes n target := by
  obtain ⟨r, h⟩ := exists_bookkeepingRegistry
  obtain ⟨settings, models, hs, hm, hborne, -, hmeaning⟩ := buildRegistry_scalarNames h
  have hsettings : settings = {} := (Except.ok.inj hs).symm
  have hmodels : models = [accountModel, ledgerModel] := (Except.ok.inj hm).symm
  subst hsettings hmodels
  have hfree : ∀ kind : ScalarKind,
      ¬ (({} : Settings).rootTypeName = .text kind.name ∨
        kind.name ∈ [accountModel, ledgerModel].map Model.name) := by
    intro kind
    rintro (hroot | hknown)
    · have hname : "Viewer" = kind.name := Value.text.inj hroot
      revert hname
      cases kind <;> decide
    · revert hknown
      cases kind <;> decide
  refine ⟨r, h, fun kind => ?_, fun n hn => ?_⟩
  · cases hfound : r.find? (.text kind.name) with
    | none => rfl
    | some t => exact absurd ((hborne kind).mp ⟨t, hfound⟩) (hfree kind)
  · apply (hmeaning n hn).2.mpr
    rintro ⟨kind, -, hkind⟩
    exact hfree kind hkind

section Shallow

variable (h : ∀ q ∈ m.properties.map (·.2), ∀ raw name hidden,
  q.type.itemType ≠ .embedded raw name hidden)
include h

theorem Model.Declares.of_shallow (hp : m.Declares n p) : p ∈ m.properties.map (·.2) := by
  induction hp with
  | own hp => exact hp
  | inside _ hitem _ _ ih => exact absurd hitem (h _ ih _ _ _)

theorem Model.Plain.of_shallow (hown : TextNamed (m.properties.map (·.2)))
    (hdescription : m.description.IsRemark)
    (hremarks : ∀ q ∈ m.properties.map (·.2), q.description.IsRemark ∧ q.enum = none) :
    m.Plain := by
  refine ⟨⟨hown, fun hp hitem _ => ?_⟩, hdescription, fun hp => ?_⟩
  · exact absurd hitem (h _ (hp.of_shallow h) _ _ _)
  · obtain ⟨hremark, henum⟩ := hremarks _ (hp.of_shallow h)
    refine ⟨hremark, fun values hvalues => ?_, fun _ _ _ hitem => ?_⟩
    · rw [henum] at hvalues
      cases hvalues
    · exact absurd hitem (h _ (hp.of_shallow h) _ _ _)

end Shallow

/-- A model that bears the name of a scalar kind. -/
def floatModel : Model := { name := "Float", pluralName := "floats" }

/-- A price whose amount is a number or refers to that model. -/
def priceModel : Model :=
  { name := "Price"
    pluralName := "prices"
    properties :=
      [(.text "amount", { name := .text "amount", type := .reference "number|Float" })] }

theorem floatModel_plain : floatModel.Plain := by
  apply Model.Plain.of_shallow
  · intro q hq
    cases hq
  · exact ⟨by simp [floatModel], .nil⟩
  · exact .inl rfl
  · intro q hq
    cases hq

theorem priceModel_plain : priceModel.Plain := by
  apply Model.Plain.of_shallow
  · intro q hq raw name hidden hitem
    rw [List.mem_singleton.mp hq] at hitem
    cases hitem
  · exact ⟨by simp [priceModel], List.pairwise_singleton _ _⟩
  · exact .inl rfl
  · intro q hq
    rw [List.mem_singleton.mp hq]
    exact ⟨.inl rfl, rfl⟩

/-- A model may be named like a scalar kind. Then a type is registered under the name of the kind, a
number and a reference to the model are one member of a union, and its name has two meanings. -/
theorem scalarName_is_registered :
    ∃ r union,
      (buildRegistry [] [.read floatModel, .read priceModel] (.given {}) none).outcome = .ok r ∧
        (∃ t, r.find? (.text ScalarKind.float.name) = some t) ∧
        r.find? (.text "Price_amount") = some union ∧ union.category = .union ∧
        Target.ofPart? ["Float", "Price"] "number" = some (.scalar .float) ∧
        Target.ofPart? ["Float", "Price"] "Float" = some (.type "Float") ∧
        union.members = ["Float"] ∧ ¬ ∃! target, r.Denotes "Float" target := by
  have hplain : ∀ m ∈ [floatModel, priceModel], m.Plain := by
    simp [floatModel_plain, priceModel_plain]
  obtain ⟨r, h, -⟩ :=
    exists_buildRegistry_of_distinct hplain (by decide +kernel) (by decide +kernel)
  obtain ⟨models, g, hm, hg, hd, hr, -⟩ := buildRegistry_realizes h
  have hmodels : models = [floatModel, priceModel] := (Except.ok.inj hm).symm
  subst hmodels
  have hg' : g = .ofModels [floatModel, priceModel] := (Except.ok.inj hg).symm
  subst hg'
  have hfloat : r.HasInputObject "Float" := hr.find?_of_known hd List.mem_cons_self
  have hplanned : (Generator.ofModels [floatModel, priceModel]).plan.any (fun t =>
      t.name == .text "Price_amount" && t.category == .union && t.members == ["Float"]) = true := by
    decide +kernel
  obtain ⟨planned, hplan, hunion⟩ := List.any_eq_true.mp hplanned
  simp only [Bool.and_eq_true, beq_iff_eq] at hunion
  obtain ⟨⟨hname, hcategory⟩, hmembers⟩ := hunion
  obtain ⟨union, hfound, hsame⟩ := hr.holds planned hplan
  obtain ⟨-, hcategory', -, -, -, -, hmembers', -⟩ := TypeDescriptor.same_iff.mp hsame
  obtain ⟨t, ht, -⟩ := hfloat
  rw [Value.eq_of_beq_text hname] at hfound
  refine ⟨r, union, h, ⟨t, ht⟩, hfound, hcategory'.trans hcategory,
    by decide +kernel, by decide +kernel, hmembers'.trans hmembers, ?_⟩
  have hdenotes : r.Denotes "Float" (.scalar .float) := rfl
  rw [Registry.existsUnique_denotes_iff hdenotes, not_not]
  exact ⟨.float, rfl, t, ht⟩

end ModelSchema
