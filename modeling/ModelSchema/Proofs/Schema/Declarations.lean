import ModelSchema.Proofs.Schema.Build
import ModelSchema.Proofs.Value.Keys

/-!
# Declared properties

What a model declares, at any depth, and what it takes for the fields that are made from it to be
told apart by their names: the properties of each table are named by texts, each by its own.
-/

namespace ModelSchema

variable {m : Model} {s : Surroundings} {o : Owner} {p : Property} {c : Compiled} {g : Generator}
  {t : TypeDescriptor} {types : List TypeDescriptor} {fields : List (Value × Field)}

/-- The type with a name declares a property: the type of the model, or a structure that such a
property declares. -/
inductive Model.Declares (m : Model) : String → Property → Prop
  | own {p : Property} : p ∈ m.properties.map (·.2) → Declares m m.name p
  | inside {o : String} {p : Property} {raw name : Value} {hidden : List Value}
      {rows : List (Value × Property)} {row : Value × Property} :
    Declares m o p → p.type.itemType = .embedded raw name hidden →
      Property.ofMapping raw = .ok rows → row ∈ rows →
      Declares m (derivedName o p.name) row.2

/-- Properties are named by texts, each by its own, as those of a mapping with texts as keys are. -/
structure TextNamed (props : List Property) : Prop where
  text : ∀ p ∈ props, ∃ n, p.name = .text n
  distinct : props.Pairwise fun p q => (p.name == q.name) = false

/-- The properties of a model are named by texts, each by its own, and each structure inside it is
declared by a mapping with texts as keys. -/
structure Model.WellNamed (m : Model) : Prop where
  own : TextNamed (m.properties.map (·.2))
  keys : ∀ {o : String} {p : Property} {raw name : Value} {hidden : List Value}
    {entries : List (Value × Value)},
    m.Declares o p → p.type.itemType = .embedded raw name hidden → raw.items = .ok entries →
      TextKeyed entries

/-- What a value holds under a name that leads on to other declarations. -/
theorem Value.member?_cases {v w : Value} {word : String}
    (hword : word ∈ ["type", "properties", "definition"]) (h : v.member? word = some w) :
    (∃ entries, v.entries? = some entries ∧ ∃ entry ∈ entries, entry.2 = w) ∨
      ∃ fields, (v = .object fields ∨ ∃ shape, v = .record shape fields) ∧
        ∃ field ∈ fields, field.2 = w := by
  unfold member? at h
  split at h
  · rename_i entries hentries
    obtain ⟨entry, hentry, -, rfl⟩ := Table.mem_of_find? h
    exact .inl ⟨entries, hentries, entry, hentry, rfl⟩
  · right
    simp only [List.mem_cons, List.not_mem_nil, or_false] at hword
    have hclass : word ≠ "__class__" := by rcases hword with rfl | rfl | rfl <;> decide
    have hdict : word ≠ "__dict__" := by rcases hword with rfl | rfl | rfl <;> decide
    rw [attribute?, if_neg hclass] at h
    cases v with
    | object fields =>
      rw [ownAttribute?, if_neg hdict] at h
      obtain ⟨field, hfield, -, rfl⟩ := Table.mem_of_find? h
      exact ⟨fields, .inl rfl, field, hfield, rfl⟩
    | record shape fields =>
      obtain ⟨field, hfield, -, rfl⟩ := Table.mem_of_find? h
      exact ⟨fields, .inr ⟨shape, rfl⟩, field, hfield, rfl⟩
    | type t => rcases hword with rfl | rfl | rfl <;> cases t <;> cases h
    | _ => rcases hword with rfl | rfl | rfl <;> cases h

/-- A property is named by its key, and its type is what the value under the key describes, or a
structure with that value as its properties, or what that value stands for. -/
theorem Property.ofValue_cases {key raw : Value} (h : ofValue key raw = .ok p) :
    p.name = key ∧
      ((∃ described, raw.member? "type" = some described ∧
          DeclaredType.ofValue described = .ok p.type) ∨
        p.type = .embedded raw .null [] ∨ DeclaredType.ofValue raw = .ok p.type) := by
  unfold ofValue at h
  split at h
  · rename_i described hdescribed
    have hread : raw.read ["type"] = described := by
      rw [Value.read, Value.firstMember?, hdescribed]
      rfl
    unfold ofDescription at h
    rw [hread] at h
    obtain ⟨type, htype, h⟩ := exists_of_bind_ok h
    obtain ⟨values, -, h⟩ := exists_of_bind_ok h
    cases h
    exact ⟨rfl, .inl ⟨described, hdescribed, htype⟩⟩
  · split at h
    · cases h
      exact ⟨rfl, .inr (.inl rfl)⟩
    · obtain ⟨type, htype, rfl⟩ := exists_of_map_ok h
      exact ⟨rfl, .inr (.inr htype)⟩

theorem Property.ofEntries_cons_ok {key raw : Value} {rest : List (Value × Value)}
    {rows : List (Value × Property)} (h : ofEntries ((key, raw) :: rest) = .ok rows) :
    ∃ p others, ofValue key raw = .ok p ∧ ofEntries rest = .ok others ∧
      rows = (key, p) :: others := by
  rw [ofEntries] at h
  obtain ⟨p, hp, h⟩ := exists_of_bind_ok h
  obtain ⟨others, hothers, rfl⟩ := exists_of_map_ok h
  exact ⟨p, others, hp, hothers, rfl⟩

theorem Property.exists_of_mem_ofEntries {entries : List (Value × Value)}
    {rows : List (Value × Property)} (h : ofEntries entries = .ok rows) :
    ∀ row ∈ rows, ∃ entry ∈ entries, ofValue entry.1 entry.2 = .ok row.2 := by
  induction entries generalizing rows with
  | nil =>
    cases h
    simp
  | cons entry rest ih =>
    obtain ⟨p, others, hp, hothers, rfl⟩ := ofEntries_cons_ok h
    refine List.forall_mem_cons.mpr ⟨⟨entry, List.mem_cons_self, hp⟩, fun row hrow => ?_⟩
    obtain ⟨source, hsource, hq⟩ := ih hothers row hrow
    exact ⟨source, List.mem_cons_of_mem _ hsource, hq⟩

theorem Value.items_cases {v : Value} {entries : List (Value × Value)} (h : v.items = .ok entries) :
    entries = [] ∨ v.entries? = some entries := by
  unfold items at h
  split at h
  · split at h
    · rename_i found hfound
      cases h
      exact .inr hfound
    · split at h
      · cases h
        exact .inl rfl
      · cases h
  · cases h
    exact .inl rfl

theorem Property.exists_of_mem_ofMapping {raw : Value} {rows : List (Value × Property)}
    (h : ofMapping raw = .ok rows) : ∀ row ∈ rows, ∃ entries, raw.entries? = some entries ∧
      ∃ entry ∈ entries, ofValue entry.1 entry.2 = .ok row.2 := by
  obtain ⟨entries, hentries, hread⟩ := exists_of_bind_ok h
  intro row hrow
  obtain ⟨entry, hentry, hp⟩ := exists_of_mem_ofEntries hread row hrow
  rcases Value.items_cases hentries with rfl | hfound
  · cases hentry
  · exact ⟨entries, hfound, entry, hentry, hp⟩

theorem Property.names_of_ofEntries {entries : List (Value × Value)}
    {rows : List (Value × Property)} (h : Property.ofEntries entries = .ok rows) :
    (rows.map (·.2)).map Property.name = entries.map (·.1) := by
  induction entries generalizing rows with
  | nil =>
    cases h
    rfl
  | cons entry rest ih =>
    obtain ⟨key, raw⟩ := entry
    obtain ⟨p, others, hp, hothers, rfl⟩ := Property.ofEntries_cons_ok h
    rw [List.map_cons, List.map_cons, List.map_cons, ih hothers, (Property.ofValue_cases hp).1]

theorem TextNamed.of_ofMapping {raw : Value} {rows : List (Value × Property)}
    (hk : ∀ entries, raw.items = .ok entries → TextKeyed entries)
    (h : Property.ofMapping raw = .ok rows) : TextNamed (rows.map (·.2)) := by
  obtain ⟨entries, hentries, hread⟩ := exists_of_bind_ok h
  have hnames := Property.names_of_ofEntries hread
  have hkeyed := hk entries hentries
  constructor
  · intro q hq
    have hname : q.name ∈ entries.map (·.1) := by
      rw [← hnames]
      exact List.mem_map_of_mem hq
    obtain ⟨entry, he, hkey⟩ := List.mem_map.mp hname
    rw [← hkey]
    exact hkeyed.text entry he
  · have hdistinct : (entries.map (·.1)).Pairwise fun a b => (a == b) = false :=
      List.pairwise_map.mpr hkeyed.distinct
    rw [← hnames] at hdistinct
    exact List.pairwise_map.mp hdistinct

theorem Model.WellNamed.inside {raw name : Value} {hidden : List Value} {n : String}
    {rows : List (Value × Property)} (hw : m.WellNamed) (hp : m.Declares n p)
    (hitem : p.type.itemType = .embedded raw name hidden)
    (hrows : Property.ofMapping raw = .ok rows) : TextNamed (rows.map (·.2)) :=
  .of_ofMapping (fun _ hentries => hw.keys hp hitem hentries) hrows

theorem Compiles.field_name {f : Field} (h : Compiles s o p c) (hf : c.field = some f) :
    f.name = p.name := by
  cases h <;> cases hf <;> rfl

theorem distinct_fieldRows {result : Property → Compiled} {props : List Property}
    (hn : TextNamed props) (hf : ∀ p ∈ props, ∀ f, (result p).field = some f → f.name = p.name) :
    Table.Distinct (fieldRows result props) := by
  have hd : props.Pairwise fun p q =>
      ∀ f, (result p).field = some f → ∀ f', (result q).field = some f' →
        (f.name == f'.name) = false := by
    refine List.Pairwise.imp_of_mem (fun {p q} hp hq h f hfp f' hfq => ?_) hn.distinct
    rw [hf p hp f hfp, hf q hq f' hfq]
    exact h
  refine List.pairwise_filterMap.mpr (hd.imp fun {p q} h row hr row' hr' => ?_)
  obtain ⟨f, hfp, rfl⟩ := Option.map_eq_some_iff.mp hr
  obtain ⟨f', hfq, rfl⟩ := Option.map_eq_some_iff.mp hr'
  exact h f hfp f' hfq

theorem find?_fieldRows {result : Property → Compiled} {props : List Property} {f : Field}
    (hn : TextNamed props) (hf : ∀ p ∈ props, ∀ f, (result p).field = some f → f.name = p.name)
    (hp : p ∈ props) (h : (result p).field = some f) :
    Table.find? p.name (fieldRows result props) = some f := by
  have hrow : (f.name, f) ∈ fieldRows result props := mem_fieldRows.mpr ⟨p, hp, h, rfl⟩
  rw [← hf p hp f h]
  exact Table.find?_of_mem (distinct_fieldRows hn hf) hrow

theorem Compiles.textKeyed (h : Compiles s o p c) (hp : m.Declares o.name p) (hw : m.WellNamed)
    (ht : t ∈ c.types) : TextKeyed t.fields := by
  induction h generalizing t with
  | deprecated _ | unresolved _ | scalar _ _ | reference _ _ _ => simp at ht
  | enumeration _ _ _ | union _ _ _ =>
    rw [List.mem_singleton.mp ht]
    exact ⟨by simp [TypeDescriptor.enumeration, TypeDescriptor.unionOf], List.Pairwise.nil⟩
  | @nested o p raw name hidden rows result _ _ hitem hrows _ hall ih =>
    rcases List.mem_append.mp ht with ht | ht
    · obtain ⟨q, hq, hin⟩ := mem_madeTypes.mp ht
      obtain ⟨row, hrow, rfl⟩ := List.mem_map.mp hq
      exact ih row hrow (.inside hp hitem hrows hrow) hin
    · have hnamed := hw.inside hp hitem hrows
      have hnames : ∀ q ∈ rows.map (·.2), ∀ f, (result q).field = some f → f.name = q.name := by
        intro q hq f hf
        obtain ⟨source, hs, rfl⟩ := List.mem_map.mp hq
        exact (hall source hs).field_name hf
      rw [List.mem_singleton.mp ht]
      constructor
      · intro row hrow
        obtain ⟨q, hq, hf, hkey⟩ := mem_fieldRows.mp hrow
        rw [hkey, hnames q hq row.2 hf]
        exact hnamed.text q hq
      · exact distinct_fieldRows hnamed hnames

theorem textKeyed_listings (models : List Model) : TextKeyed (listings models) := by
  constructor
  · intro row hrow
    rcases Table.fst_mem_merge hrow with ⟨_, hnil, -⟩ | ⟨listing, hl, hs⟩
    · cases hnil
    · obtain ⟨listed, -, rfl⟩ := List.mem_map.mp hl
      exact ⟨listed.listingName, hs⟩
  · exact Table.distinct_ofRows _

theorem Generator.textKeyed_of_draft (h : (g.draft m).outcome = .ok (fields, types))
    (hw : m.WellNamed) (ht : t ∈ types ++ [m.objectType fields]) : TextKeyed t.fields := by
  obtain ⟨result, hall, rfl, rfl⟩ := compiles_of_draft h
  rcases List.mem_append.mp ht with ht | ht
  · obtain ⟨q, hq, hin⟩ := mem_madeTypes.mp ht
    exact (hall q hq).textKeyed (.own hq) hw hin
  · rw [List.mem_singleton.mp ht]
    constructor
    · intro row hrow
      rcases Table.fst_mem_merge hrow with ⟨old, ho, hs⟩ | ⟨new, hn, hs⟩
      · rcases Table.fst_mem_merge ho with ⟨_, hnil, -⟩ | ⟨made, hm, hs'⟩
        · cases hnil
        · obtain ⟨q, hq, hf, hkey⟩ := mem_fieldRows.mp hm
          rw [hs, hs', hkey, (hall q hq).field_name hf]
          exact hw.own.text q hq
      · obtain ⟨relation, -, rfl⟩ := List.mem_map.mp hn
        exact ⟨relation.name, hs⟩
    · exact Table.distinct_merge (Table.distinct_ofRows _) _

theorem Generator.textKeyed_of_mem_plan (hw : ∀ m ∈ g.models, m.WellNamed) (ht : t ∈ g.plan) :
    TextKeyed t.fields := by
  rcases List.mem_cons.mp ht with rfl | ht
  · exact textKeyed_listings g.models
  · obtain ⟨first, hf, ht⟩ := List.mem_flatMap.mp ht
    obtain ⟨fields, types, hd, heq⟩ := exists_draft_of_mem_typesOf ht
    rw [heq] at ht
    exact textKeyed_of_draft hd (hw first (mem_of_mem_newModels hf).1) ht

end ModelSchema
