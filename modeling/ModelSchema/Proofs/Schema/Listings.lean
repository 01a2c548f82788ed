import Mathlib.Logic.ExistsUnique
import ModelSchema.Proofs.Schema.Consistency

/-!
# What the root type lists

The root type has a field for each name under which shared models are listed, and of the models that
share such a name it lists the last (`listed?`), whether or not the model is compiled. Relations are
exposed by the first model of a name instead. Main statement: the root type lists a compiled model
once if the model is shared, and not at all if it is not, exactly if the listings are as declared
(`ListedAsDeclared`); then a model is listed exactly if relations to it are exposed. This is so for
a model that has no rival (`Unrivalled`). Otherwise a listing may be lost to another model, a model
may be listed twice, and one that is not shared may be listed.
-/

namespace ModelSchema

variable {models : List Model} {m : Model} {key : String} {row : Value × Field} {r : Registry}
  {g : Generator}

namespace TypeDescriptor

/-- A field of the type refers to a name. -/
def Lists (t : TypeDescriptor) (n : String) : Prop := ∃ row ∈ t.fields, row.2.typeName = some n

/-- Exactly one field of the type refers to a name. -/
def ListsOnce (t : TypeDescriptor) (n : String) : Prop :=
  ∃! row, row ∈ t.fields ∧ row.2.typeName = some n

/-- The type lists a model once if the model is shared, and not at all if it is not. -/
def ListsAsShared (t : TypeDescriptor) (m : Model) : Prop :=
  (m.shared = true → t.ListsOnce m.name) ∧ (m.shared = false → ¬ t.Lists m.name)

theorem Lists.of_once {t : TypeDescriptor} {n : String} (h : t.ListsOnce n) : t.Lists n := by
  obtain ⟨row, hrow, -⟩ := h
  exact ⟨row, hrow⟩

end TypeDescriptor

/-- The model that the root type lists under a name: the last shared one of that listing name. -/
def listed? (models : List Model) (key : String) : Option Model :=
  (models.filter Model.shared).reverse.find? fun m => m.listingName == key

theorem find?_map_ofListing (models : List Model) (key : String) :
    Table.find? (.text key) (models.map fun m => (Value.text m.listingName, Field.ofListing m)) =
      (models.find? fun m => m.listingName == key).map Field.ofListing := by
  induction models with
  | nil => rfl
  | cons m rest ih =>
    rw [List.map_cons, Table.find?, List.find?_cons, Value.text_beq_text, ih]
    cases m.listingName == key <;> simp

theorem find?_listings (models : List Model) (key : String) :
    Table.find? (.text key) (listings models) = (listed? models key).map Field.ofListing := by
  unfold listings Table.ofRows
  rw [Table.find?_merge, ← List.map_reverse, find?_map_ofListing]
  exact Option.or_none

theorem mem_listings_iff :
    row ∈ listings models ↔
      ∃ key m, listed? models key = some m ∧ row = (.text key, .ofListing m) := by
  have hkeyed := textKeyed_listings models
  constructor
  · intro hrow
    obtain ⟨key, hkey⟩ := hkeyed.text row hrow
    have hfound := Table.find?_of_mem hkeyed.distinct hrow
    rw [hkey, find?_listings] at hfound
    obtain ⟨m, hm, hf⟩ := Option.map_eq_some_iff.mp hfound
    exact ⟨key, m, hm, Prod.ext hkey hf.symm⟩
  · rintro ⟨key, m, hm, rfl⟩
    have hfound : Table.find? (.text key) (listings models) = some (.ofListing m) := by
      rw [find?_listings, hm, Option.map_some]
    obtain ⟨row, hrow, hkey, hf⟩ := Table.mem_of_find? hfound
    have hrow' : row = (.text key, .ofListing m) := Prod.ext (Value.eq_of_beq_text hkey) hf
    rwa [← hrow']

theorem listed?_spec (h : listed? models key = some m) :
    m ∈ models ∧ m.shared = true ∧ m.listingName = key := by
  have hin : m ∈ models.filter Model.shared := List.mem_reverse.mp (List.mem_of_find?_eq_some h)
  have hkey := List.find?_some h
  exact ⟨(List.mem_filter.mp hin).1, (List.mem_filter.mp hin).2, by simpa using hkey⟩

theorem exists_listed (hm : m ∈ models) (hs : m.shared = true) :
    ∃ last, listed? models m.listingName = some last := by
  have hin : m ∈ (models.filter Model.shared).reverse :=
    List.mem_reverse.mpr (List.mem_filter.mpr ⟨hm, hs⟩)
  have hsome : (listed? models m.listingName).isSome = true :=
    List.find?_isSome.mpr ⟨m, hin, by simp⟩
  exact Option.isSome_iff_exists.mp hsome

theorem rootType_lists_iff {settings : Settings} {n : String} :
    (rootType models settings).Lists n ↔ ∃ key m, listed? models key = some m ∧ m.name = n := by
  unfold TypeDescriptor.Lists
  constructor
  · rintro ⟨row, hrow, hname⟩
    obtain ⟨key, m, hm, rfl⟩ := mem_listings_iff.mp hrow
    exact ⟨key, m, hm, Option.some.inj hname⟩
  · rintro ⟨key, m, hm, hname⟩
    exact ⟨_, mem_listings_iff.mpr ⟨key, m, hm, rfl⟩, congrArg some hname⟩

/-- The models that are listed and bear the name of a model agree with it: there is one if the model
is shared, under one listing name only, and none if it is not shared. -/
structure ListedAsDeclared (models : List Model) (m : Model) : Prop where
  listed : m.shared = true → ∃ key last, listed? models key = some last ∧ last.name = m.name
  once : ∀ key last key' last', listed? models key = some last → last.name = m.name →
    listed? models key' = some last' → last'.name = m.name → key = key'
  shared : ∀ key last, listed? models key = some last → last.name = m.name → m.shared = true

/-- The shared models of the name of a model are listed like it, which then is shared too, and no
other shared models are listed so. -/
structure Unrivalled (models : List Model) (m : Model) : Prop where
  namesakes : ∀ other ∈ models, other.shared = true → other.name = m.name →
    m.shared = true ∧ other.listingName = m.listingName
  listing : ∀ other ∈ models, other.shared = true → other.listingName = m.listingName →
    other.name = m.name

theorem ListedAsDeclared.of_unrivalled (hm : m ∈ models) (h : Unrivalled models m) :
    ListedAsDeclared models m := by
  constructor
  · intro hs
    obtain ⟨last, hlast⟩ := exists_listed hm hs
    obtain ⟨hin, hshared, hkey⟩ := listed?_spec hlast
    exact ⟨m.listingName, last, hlast, h.listing last hin hshared hkey⟩
  · intro key last key' last' hlast hname hlast' hname'
    obtain ⟨hin, hshared, hkey⟩ := listed?_spec hlast
    obtain ⟨hin', hshared', hkey'⟩ := listed?_spec hlast'
    rw [← hkey, ← hkey', (h.namesakes last hin hshared hname).2,
      (h.namesakes last' hin' hshared' hname').2]
  · intro key last hlast hname
    obtain ⟨hin, hshared, -⟩ := listed?_spec hlast
    exact (h.namesakes last hin hshared hname).1

theorem listsAsShared_rootType_iff {settings : Settings} :
    (rootType models settings).ListsAsShared m ↔ ListedAsDeclared models m := by
  constructor
  · rintro ⟨honce, hnone⟩
    have hshared : ∀ key last, listed? models key = some last → last.name = m.name →
        m.shared = true := by
      intro key last hlast hname
      cases hs : m.shared with
      | true => rfl
      | false => exact absurd (rootType_lists_iff.mpr ⟨key, last, hlast, hname⟩) (hnone hs)
    refine ⟨?_, ?_, hshared⟩
    · intro hs
      exact rootType_lists_iff.mp (.of_once (honce hs))
    · intro key last key' last' hlast hname hlast' hname'
      obtain ⟨row, -, hunique⟩ := honce (hshared key last hlast hname)
      have hrow := hunique (.text key, .ofListing last)
        ⟨mem_listings_iff.mpr ⟨key, last, hlast, rfl⟩, congrArg some hname⟩
      have hrow' := hunique (.text key', .ofListing last')
        ⟨mem_listings_iff.mpr ⟨key', last', hlast', rfl⟩, congrArg some hname'⟩
      have hkeys : Value.text key = .text key' := congrArg Prod.fst (hrow.trans hrow'.symm)
      exact Value.text.inj hkeys
  · intro h
    constructor
    · intro hs
      obtain ⟨key, last, hlast, hname⟩ := h.listed hs
      refine ⟨(.text key, .ofListing last),
        ⟨mem_listings_iff.mpr ⟨key, last, hlast, rfl⟩, congrArg some hname⟩, ?_⟩
      rintro row ⟨hrow, hrefers⟩
      obtain ⟨key', last', hlast', rfl⟩ := mem_listings_iff.mp hrow
      have hname' : last'.name = m.name := Option.some.inj hrefers
      have hkeys : key' = key := h.once key' last' key last hlast' hname' hlast hname
      rw [hkeys] at hlast' ⊢
      rw [hlast] at hlast'
      rw [Option.some.inj hlast']
    · intro hs hlists
      obtain ⟨key, last, hlast, hname⟩ := rootType_lists_iff.mp hlists
      rw [h.shared key last hlast hname] at hs
      cases hs

namespace Generator

theorem find?_of_mem_newModels {ms : List Model} {taken : List String}
    (h : m ∈ newModels taken ms) : (ms.find? fun other => other.name == m.name) = some m := by
  induction ms generalizing taken with
  | nil => cases h
  | cons head rest ih =>
    -- a model whose name is taken stands for no model that is compiled later
    have hskip : ∀ names : List String, head.name ∈ names → m ∈ newModels names rest →
        ((head :: rest).find? fun other => other.name == m.name) = some m := by
      intro names hhead hin
      have hne : head.name ≠ m.name := fun he => (mem_of_mem_newModels hin).2 (he ▸ hhead)
      rw [List.find?_cons_of_neg (by simpa using hne)]
      exact ih hin
    rw [newModels] at h
    by_cases ht : head.name ∈ taken
    · rw [if_pos ht] at h
      exact hskip taken ht h
    · rw [if_neg ht] at h
      rcases List.mem_cons.mp h with rfl | h
      · exact List.find?_cons_of_pos (by simp)
      · exact hskip _ List.mem_concat_self h

/-- Relations to a compiled model are exposed if the model is shared and has a name. -/
theorem exposes_iff_shared {relation : Relation} (hm : m ∈ g.firstModels)
    (ht : relation.target = some m.name) (hn : m.name ≠ "") :
    g.exposes relation = true ↔ m.shared = true := by
  have hfirst : g.model? m.name = some m := find?_of_mem_newModels hm
  unfold exposes
  rw [ht]
  simp [hfirst, hn]

end Generator

/-- The root type of a registry lists a compiled model once if the model is shared, and not at all
if it is not, exactly if the listings are as declared. Then it lists a model that has a name exactly
if relations to the model are exposed. The listings of a model without rivals are as declared. -/
theorem buildRegistry_lists_iff {catalogue : LookupCatalogue} {sources : List ModelSource}
    {source : SettingsSource} {lookup : Option RelationLookup}
    (h : (buildRegistry catalogue sources source lookup).outcome = .ok r) :
    ∃ g root, (loadModels sources).outcome = .ok g.models ∧
      Generator.make catalogue g.models source lookup = .ok g ∧
      r.find? g.settings.rootTypeName = some root ∧
      (∀ n, (∃ m ∈ g.models, m.name = n) ↔ ∃ m ∈ g.firstModels, m.name = n) ∧
      ∀ m ∈ g.firstModels,
        (root.ListsAsShared m ↔ ListedAsDeclared g.models m) ∧
        (Unrivalled g.models m → ListedAsDeclared g.models m) ∧
        (ListedAsDeclared g.models m → m.name ≠ "" →
          ∀ relation, relation.target = some m.name →
            (root.Lists m.name ↔ g.exposes relation = true)) := by
  obtain ⟨models, g, hm, hg, -, -, hroot⟩ := buildRegistry_realizes h
  obtain ⟨-, hmodels, -⟩ := Generator.make_ok hg
  subst hmodels
  refine ⟨g, rootType g.models g.settings, hm, hg, hroot, ?_, ?_⟩
  · intro n
    constructor
    · rintro ⟨m, hin, hname⟩
      obtain ⟨first, hfirst, hsame⟩ := Generator.exists_newModel hin List.not_mem_nil
      exact ⟨first, hfirst, hsame.trans hname⟩
    · rintro ⟨m, hfirst, hname⟩
      exact ⟨m, (Generator.mem_of_mem_newModels hfirst).1, hname⟩
  · intro m hfirst
    have hin : m ∈ g.models := (Generator.mem_of_mem_newModels hfirst).1
    refine ⟨listsAsShared_rootType_iff, .of_unrivalled hin, ?_⟩
    intro hdeclared hn relation ht
    rw [Generator.exposes_iff_shared hfirst ht hn, rootType_lists_iff]
    constructor
    · rintro ⟨key, last, hlast, hname⟩
      exact hdeclared.shared key last hlast hname
    · exact hdeclared.listed

theorem buildRegistry_lists_iff_bookkeeping :
    ∃ r root, (buildRegistry [] bookkeeping (.given {}) none).outcome = .ok r ∧
      r.find? (.text "Viewer") = some root ∧
      root.ListsOnce "Account" ∧ root.ListsOnce "Ledger" := by
  obtain ⟨r, h⟩ := exists_bookkeepingRegistry
  obtain ⟨g, root, hm, hg, hroot, -, hlists⟩ := buildRegistry_lists_iff h
  have hmodels : g.models = [accountModel, ledgerModel] := (Except.ok.inj hm).symm
  rw [hmodels] at hg
  have hg' : g = .ofModels [accountModel, ledgerModel] := (Except.ok.inj hg).symm
  subst hg'
  have haccount : Unrivalled [accountModel, ledgerModel] accountModel :=
    ⟨by decide +kernel, by decide +kernel⟩
  have hledger : Unrivalled [accountModel, ledgerModel] ledgerModel :=
    ⟨by decide +kernel, by decide +kernel⟩
  refine ⟨r, root, h, hroot, ?_, ?_⟩
  · obtain ⟨hiff, hdeclared, -⟩ := hlists accountModel List.mem_cons_self
    exact (hiff.mpr (hdeclared haccount)).1 rfl
  · obtain ⟨hiff, hdeclared, -⟩ := hlists ledgerModel (List.mem_cons_of_mem _ List.mem_cons_self)
    exact (hiff.mpr (hdeclared hledger)).1 rfl

def orderModel : Model := { name := "Order", pluralName := "orders" }

def sharedOrder : Model := { orderModel with shared := true }

def sharedPurchase : Model := { sharedOrder with pluralName := "purchases" }

def sharedInvoice : Model := { name := "Invoice", pluralName := "Orders", shared := true }

theorem Model.plain_of_bare (hp : m.properties = []) (hd : m.description.IsRemark) : m.Plain := by
  have hnone : ∀ {n : String} {p : Property}, ¬ m.Declares n p := by
    intro n p hdecl
    induction hdecl with
    | own hin => simp [hp] at hin
    | inside _ _ _ _ ih => exact ih
  have hnamed : TextNamed (m.properties.map (·.2)) := ⟨by simp [hp], by simp [hp]⟩
  exact ⟨⟨hnamed, fun hdecl => absurd hdecl hnone⟩, hd, fun hdecl => absurd hdecl hnone⟩

theorem listed?_pair {first second : Model} (hf : first.shared = true) (hs : second.shared = true) :
    listed? [first, second] key =
      if second.listingName = key then some second
      else if first.listingName = key then some first else none := by
  have hshared : [first, second].filter Model.shared = [first, second] := by simp [hf, hs]
  rw [listed?, hshared, List.reverse_cons, List.reverse_singleton, List.singleton_append]
  by_cases hsecond : second.listingName = key
  · rw [if_pos hsecond]
    exact List.find?_cons_of_pos (beq_iff_eq.mpr hsecond)
  · rw [if_neg hsecond, List.find?_cons_of_neg (by simpa using hsecond)]
    by_cases hfirst : first.listingName = key
    · rw [if_pos hfirst]
      exact List.find?_cons_of_pos (beq_iff_eq.mpr hfirst)
    · rw [if_neg hfirst, List.find?_cons_of_neg (by simpa using hfirst), List.find?_nil]

/-- The root type lists a model that is not shared if a later model of its name is; it does not list
a shared model if a later one has the same listing name; and it lists a shared model twice if a
later one of its name has another listing name. -/
theorem listings_not_as_declared :
    (∃ r root,
      (buildRegistry [] [.read orderModel, .read sharedOrder] (.given {}) none).outcome = .ok r ∧
        r.find? (.text "Viewer") = some root ∧ orderModel.shared = false ∧ root.Lists "Order") ∧
      (∃ r root,
        (buildRegistry [] [.read sharedOrder, .read sharedInvoice] (.given {}) none).outcome =
            .ok r ∧
          r.find? (.text "Viewer") = some root ∧ ¬ root.Lists "Order") ∧
      ∃ r root,
        (buildRegistry [] [.read sharedOrder, .read sharedPurchase] (.given {}) none).outcome =
            .ok r ∧
          r.find? (.text "Viewer") = some root ∧ root.Lists "Order" ∧ ¬ root.ListsOnce "Order" := by
  have horder : orderModel.Plain := Model.plain_of_bare rfl (.inl rfl)
  have hshared : sharedOrder.Plain := Model.plain_of_bare rfl (.inl rfl)
  have hpurchase : sharedPurchase.Plain := Model.plain_of_bare rfl (.inl rfl)
  have hinvoice : sharedInvoice.Plain := Model.plain_of_bare rfl (.inl rfl)
  have hkey : sharedOrder.listingName = "orders" := by decide +kernel
  have hkey' : sharedPurchase.listingName = "purchases" := by decide +kernel
  have hclash : sharedInvoice.listingName = "orders" := by decide +kernel
  refine ⟨?_, ?_, ?_⟩
  · have hplain : ∀ m ∈ [orderModel, sharedOrder], m.Plain := by simp [horder, hshared]
    obtain ⟨r, h, hroot⟩ :=
      exists_buildRegistry_of_distinct hplain (by decide +kernel) (by decide +kernel)
    have hlisted : listed? [orderModel, sharedOrder] "orders" = some sharedOrder := by
      have hlast : (sharedOrder.listingName == "orders") = true := beq_iff_eq.mpr hkey
      rw [listed?, List.filter_cons_of_neg (by decide), List.filter_cons_of_pos (by decide)]
      exact List.find?_cons_of_pos hlast
    exact ⟨r, _, h, hroot, rfl, rootType_lists_iff.mpr ⟨"orders", sharedOrder, hlisted, rfl⟩⟩
  · have hplain : ∀ m ∈ [sharedOrder, sharedInvoice], m.Plain := by simp [hshared, hinvoice]
    obtain ⟨r, h, hroot⟩ :=
      exists_buildRegistry_of_distinct hplain (by decide +kernel) (by decide +kernel)
    have hlisted : listed? [sharedOrder, sharedInvoice] "orders" = some sharedInvoice := by
      rw [listed?_pair rfl rfl, if_pos hclash]
    refine ⟨r, _, h, hroot, ?_⟩
    intro hlists
    obtain ⟨key, last, hlast, hname⟩ := rootType_lists_iff.mp hlists
    obtain ⟨hin, -, hlastKey⟩ := listed?_spec hlast
    have hsame : key = "orders" := by
      rcases List.mem_cons.mp hin with rfl | hin
      · exact hlastKey.symm.trans hkey
      · rw [List.mem_singleton.mp hin] at hlastKey
        exact hlastKey.symm.trans hclash
    rw [hsame, hlisted] at hlast
    have hlastName : last.name = "Invoice" := congrArg Model.name (Option.some.inj hlast).symm
    rw [hlastName] at hname
    exact absurd hname (by decide)
  · have hplain : ∀ m ∈ [sharedOrder, sharedPurchase], m.Plain := by simp [hshared, hpurchase]
    obtain ⟨r, h, hroot⟩ :=
      exists_buildRegistry_of_distinct hplain (by decide +kernel) (by decide +kernel)
    have hfirst : listed? [sharedOrder, sharedPurchase] "orders" = some sharedOrder := by
      rw [listed?_pair rfl rfl, hkey', if_neg (by decide), if_pos hkey]
    have hsecond : listed? [sharedOrder, sharedPurchase] "purchases" = some sharedPurchase := by
      rw [listed?_pair rfl rfl, if_pos hkey']
    refine ⟨r, _, h, hroot, rootType_lists_iff.mpr ⟨"orders", sharedOrder, hfirst, rfl⟩, ?_⟩
    intro honce
    have hdeclared : ListedAsDeclared [sharedOrder, sharedPurchase] sharedOrder :=
      listsAsShared_rootType_iff.mp ⟨fun _ => honce, fun hs => by cases hs⟩
    have hkeys := hdeclared.once "orders" sharedOrder "purchases" sharedPurchase hfirst rfl
      hsecond rfl
    exact absurd hkeys (by decide)

end ModelSchema
