import ModelSchema.Proofs.Json.Spelling
import ModelSchema.Proofs.Json.Written

/-!
# Canonical texts tell values apart

Two values are alike if they differ in the order of the entries of mappings only: truth values,
integers and texts are kept apart, and the items of lists are compared in order. Values that are put
together from such ones by lists and by mappings with texts as keys have a canonical text, which
spells a value that is alike, unless an integer inside is too long. Main statements: two of these
values that have canonical texts have the same one exactly if they are alike, and alike values have
the same text or none for the same reason.
-/

namespace ModelSchema

variable {u v w : Value} {cs cs' : List Char}

/-- Values that differ in the order of the entries of mappings only. -/
inductive Value.Alike : Value → Value → Prop
  | null : Alike .null .null
  | bool (b : Bool) : Alike (.bool b) (.bool b)
  | int (n : Int) : Alike (.int n) (.int n)
  | text (s : String) : Alike (.text s) (.text s)
  | list {xs ys : List Value} (hl : xs.length = ys.length)
      (h : ∀ (i : Nat) x y, xs[i]? = some x → ys[i]? = some y → Alike x y) :
    Alike (.list xs) (.list ys)
  | mapping {xs ys : List (Value × Value)}
      (hkeys : ∀ key, key ∈ xs.map Prod.fst ↔ key ∈ ys.map Prod.fst)
      (h : ∀ x ∈ xs, ∀ y ∈ ys, x.1 = y.1 → Alike x.2 y.2) : Alike (.mapping xs) (.mapping ys)

namespace Value.Alike

theorem item {xs ys : List Value} {x y : Value} {i : Nat} (h : Alike (.list xs) (.list ys))
    (hx : xs[i]? = some x) (hy : ys[i]? = some y) : Alike x y := by
  cases h with
  | list _ hall => exact hall i x y hx hy

theorem entry {xs ys : List (Value × Value)} {x y : Value × Value}
    (h : Alike (.mapping xs) (.mapping ys)) (hx : x ∈ xs) (hy : y ∈ ys) (hxy : x.1 = y.1) :
    Alike x.2 y.2 := by
  cases h with
  | mapping _ hall => exact hall x hx y hy hxy

theorem of_forall₂ {xs ys : List Value} (h : List.Forall₂ Alike xs ys) :
    Alike (.list xs) (.list ys) := by
  refine .list h.length_eq ?_
  intro i x y hx hy
  obtain ⟨hi, rfl⟩ := List.getElem?_eq_some_iff.mp hx
  obtain ⟨hi', rfl⟩ := List.getElem?_eq_some_iff.mp hy
  exact h.get hi hi'

theorem euclid (hv : Alike v u) (hw : Alike w u) : Alike v w := by
  induction hv generalizing w with
  | null | bool _ | int _ | text _ =>
    cases hw
    constructor
  | @list xs us hl _ ih =>
    cases hw with
    | @list ys _ hl' h' =>
      refine .list (hl.trans hl'.symm) ?_
      intro i x y hx hy
      obtain ⟨hi, -⟩ := List.getElem?_eq_some_iff.mp hx
      have hi' : i < us.length := hl ▸ hi
      have hu : us[i]? = some us[i] := List.getElem?_eq_getElem hi'
      exact ih i x us[i] hx hu (h' i y us[i] hy hu)
  | @mapping xs us hkeys _ ih =>
    cases hw with
    | @mapping ys _ hkeys' h' =>
      constructor
      · intro key
        exact (hkeys key).trans (hkeys' key).symm
      · intro x hx y hy hxy
        obtain ⟨u, hu, hux⟩ := List.mem_map.mp ((hkeys x.1).mp (List.mem_map_of_mem hx))
        exact ih x hx u hu hux.symm (h' y hy u hu (hxy.symm.trans hux.symm))

end Value.Alike

namespace Json

/-- Values that are put together from plain ones by lists and by mappings with texts as keys. -/
inductive Writable : Value → Prop
  | null : Writable .null
  | bool (b : Bool) : Writable (.bool b)
  | int (n : Int) : Writable (.int n)
  | text (s : String) : Writable (.text s)
  | list {items : List Value} : (∀ v ∈ items, Writable v) → Writable (.list items)
  | mapping {entries : List (Value × Value)} : TextKeyed entries →
      (∀ entry ∈ entries, Writable entry.2) →
    Writable (.mapping entries)

/-- The canonical text of the value spells a value that is alike. -/
def Spelled (v : Value) : Prop := ∃ cs w, write .canonical v = .ok cs ∧ Spells cs w ∧ v.Alike w

theorem exists_items {items : List Value} (h : ∀ v ∈ items, Spelled v) :
    ∃ texts ws, writeItems .canonical items = .ok texts ∧ List.Forall₂ Spells texts ws ∧
      List.Forall₂ Value.Alike items ws := by
  induction items with
  | nil => exact ⟨[], [], rfl, .nil, .nil⟩
  | cons v rest ih =>
    rw [List.forall_mem_cons] at h
    obtain ⟨⟨cs, w, hwrite, hspells, halike⟩, hrest⟩ := h
    obtain ⟨texts, ws, htexts, hall, halikes⟩ := ih hrest
    refine ⟨cs :: texts, w :: ws, ?_, .cons hspells hall, .cons halike halikes⟩
    rw [writeItems, hwrite, htexts]
    rfl

/-- The property of a row is spelt, and stands for a value that is alike to an entry. -/
def RowSpelled (entries : List (Value × Value)) (row : Value × Except WriteError (List Char))
    (text : List Char) (property : String × Value) : Prop :=
  row.1 = .text property.1 ∧ row.2 = .ok text ∧
    SpellsProperty Style.canonical.keySeparator text property ∧
    ∃ entry ∈ entries, entry.1 = .text property.1 ∧ entry.2.Alike property.2

theorem exists_rowSpelled {entries : List (Value × Value)} (hk : TextKeyed entries)
    (h : ∀ entry ∈ entries, Spelled entry.2) {row : Value × Except WriteError (List Char)}
    (hrow : row ∈ entries.map fun entry => (entry.1, entryText .canonical entry)) :
    ∃ text property, RowSpelled entries row text property := by
  obtain ⟨entry, hentry, rfl⟩ := List.mem_map.mp hrow
  obtain ⟨n, hn⟩ := hk.text entry hentry
  obtain ⟨cs, w, hwrite, hspells, halike⟩ := h entry hentry
  refine ⟨stringText n ++ (Style.canonical.keySeparator ++ cs), (n, w), hn, ?_, ?_, ?_⟩
  · exact entryText_eq (by rw [hn]; rfl) hwrite
  · exact ⟨cs, rfl, hspells⟩
  · exact ⟨entry, hentry, hn, halike⟩

theorem exists_properties {entries : List (Value × Value)}
    {rows : List (Value × Except WriteError (List Char))}
    (h : ∀ row ∈ rows, ∃ text property, RowSpelled entries row text property) :
    ∃ texts properties, rows.mapM (·.2) = .ok texts ∧
      List.Forall₂ (SpellsProperty Style.canonical.keySeparator) texts properties ∧
      (properties.map propertyRow).map Prod.fst = rows.map Prod.fst ∧
      ∀ property ∈ properties, ∃ entry ∈ entries,
        entry.1 = .text property.1 ∧ entry.2.Alike property.2 := by
  induction rows with
  | nil => exact ⟨[], [], rfl, .nil, rfl, by simp⟩
  | cons row rest ih =>
    rw [List.forall_mem_cons] at h
    obtain ⟨⟨text, property, hkey, htext, hspells, hentry⟩, hrest⟩ := h
    obtain ⟨texts, properties, htexts, hall, hkeys, hentries⟩ := ih hrest
    refine ⟨text :: texts, property :: properties, ?_, .cons hspells hall, ?_, ?_⟩
    · rw [List.mapM_cons, htext, htexts]
      rfl
    · simp only [List.map_cons, hkeys, hkey]
      rfl
    · exact List.forall_mem_cons.mpr ⟨hentry, hentries⟩

theorem Spelled.list {items : List Value} (h : ∀ v ∈ items, Spelled v) :
    Spelled (.list items) := by
  obtain ⟨texts, ws, htexts, hspells, halike⟩ := exists_items h
  refine ⟨arrayText .canonical texts, .list ws, ?_,
    spells_array separates_canonical.1 hspells, .of_forall₂ halike⟩
  rw [write, htexts]
  rfl

theorem Spelled.mapping {entries : List (Value × Value)} (hk : TextKeyed entries)
    (h : ∀ entry ∈ entries, Spelled entry.2) : Spelled (.mapping entries) := by
  have hkeyed := hk.map (entryText .canonical)
  obtain ⟨sorted, hsorted⟩ := exists_sortEntries hkeyed
  have hperm := sortEntries_perm hsorted
  have hrows : ∀ row ∈ sorted, ∃ text property, RowSpelled entries row text property := by
    intro row hrow
    exact exists_rowSpelled hk h (hperm.mem_iff.mp hrow)
  obtain ⟨texts, properties, htexts, hspells, hkeys, hentries⟩ := exists_properties hrows
  have hdistinct : Table.Distinct (properties.map propertyRow) := by
    have hsortedDistinct : (sorted.map Prod.fst).Pairwise fun a b => (a == b) = false :=
      List.pairwise_map.mpr (hkeyed.perm hperm.symm).distinct
    rw [← hkeys] at hsortedDistinct
    exact List.pairwise_map.mp hsortedDistinct
  refine ⟨'\x7b' :: separated Style.canonical.itemSeparator texts ++ ['\x7d'],
    .mapping (properties.map propertyRow), ?_, ?_, ?_⟩
  · rw [write_mapping, objectText_canonical, hsorted]
    simp only [Bind.bind, Except.bind, htexts]
    rfl
  · rw [← Table.ofRows_eq_self hdistinct]
    exact spells_object separates_canonical.1 separates_canonical.2 hspells
  · constructor
    · intro key
      have hfirst : (entries.map fun entry => (entry.1, entryText .canonical entry)).map Prod.fst =
          entries.map Prod.fst := by
        rw [List.map_map]
        rfl
      rw [hkeys, ← hfirst]
      exact (hperm.map Prod.fst).symm.mem_iff
    · intro x hx y hy hxy
      obtain ⟨property, hproperty, rfl⟩ := List.mem_map.mp hy
      obtain ⟨entry, hentry, hkey, halike⟩ := hentries property hproperty
      rw [hk.eq_of_fst_eq hx hentry (hxy.trans hkey.symm)]
      exact halike

/-- A writable value has a canonical text, which spells a value that is alike, unless an integer
inside is too long. -/
theorem Writable.spelled (h : Writable v) (hs : v.isShowable = true) : Spelled v := by
  induction h with
  | null => exact ⟨_, _, by rw [write], spells_null, .null⟩
  | bool b => exact ⟨_, _, by rw [write], spells_bool b, .bool b⟩
  | int n => exact ⟨_, _, write_int hs, spells_int hs, .int n⟩
  | text s => exact ⟨_, _, by rw [write], spells_text s, .text s⟩
  | list _ ih => exact .list fun v hv => ih v hv (Value.itemsShowable_iff.mp hs v hv)
  | mapping hk _ ih =>
    refine .mapping hk fun entry hentry => ih entry hentry ?_
    exact (Value.entriesShowable_iff.mp hs entry hentry).2

theorem Writable.exists_text (h : Writable v) (hs : v.isShowable = true) :
    ∃ cs, write .canonical v = .ok cs := by
  obtain ⟨cs, -, hcs, -⟩ := h.spelled hs
  exact ⟨cs, hcs⟩

theorem Writable.spells (h : Writable v) (hcs : write .canonical v = .ok cs) :
    ∃ w, Spells cs w ∧ v.Alike w := by
  obtain ⟨cs', w, hwrite, hspells, halike⟩ := h.spelled (isShowable_of_write hcs)
  rw [hcs] at hwrite
  cases hwrite
  exact ⟨w, hspells, halike⟩

theorem alike_of_write_eq (hv : Writable v) (hw : Writable w) (hcs : write .canonical v = .ok cs)
    (hcs' : write .canonical w = .ok cs) : v.Alike w := by
  obtain ⟨u, hu, halike⟩ := hv.spells hcs
  obtain ⟨u', hu', halike'⟩ := hw.spells hcs'
  rw [hu'.unique hu] at halike'
  exact halike.euclid halike'

theorem writeItems_congr {xs ys : List Value} (hl : xs.length = ys.length)
    (h : ∀ (i : Nat) x y, xs[i]? = some x → ys[i]? = some y →
      write .canonical x = write .canonical y) :
    writeItems .canonical xs = writeItems .canonical ys := by
  induction xs generalizing ys with
  | nil =>
    cases ys with
    | nil => rfl
    | cons y ys => cases hl
  | cons x xs ih =>
    cases ys with
    | nil => cases hl
    | cons y ys =>
      have hrest : writeItems .canonical xs = writeItems .canonical ys := by
        apply ih (Nat.succ.inj hl)
        intro i x' y' hx hy
        exact h (i + 1) x' y' hx hy
      rw [writeItems, writeItems, h 0 x y rfl rfl, hrest]

theorem write_eq_of_alike (hv : Writable v) (hw : Writable w) (h : v.Alike w) :
    write .canonical v = write .canonical w := by
  induction h with
  | null | bool _ | int _ | text _ => rfl
  | @list xs ys hl _ ih =>
    cases hv with
    | list hxs =>
      cases hw with
      | list hys =>
        have hitems : writeItems .canonical xs = writeItems .canonical ys := by
          apply writeItems_congr hl
          intro i x y hx hy
          exact ih i x y hx hy (hxs x (List.mem_of_getElem? hx)) (hys y (List.mem_of_getElem? hy))
        rw [write, write, hitems]
  | @mapping xs ys hkeys _ ih =>
    cases hv with
    | mapping hx hxs =>
      cases hw with
      | mapping hy hys =>
        apply write_mapping_eq hx hy
        · intro x hxin
          obtain ⟨y, hyin, hkey⟩ := List.mem_map.mp ((hkeys x.1).mp (List.mem_map_of_mem hxin))
          exact ⟨y, hyin, hkey, (ih x hxin y hyin hkey.symm (hxs x hxin) (hys y hyin)).symm⟩
        · intro y hyin
          obtain ⟨x, hxin, hkey⟩ := List.mem_map.mp ((hkeys y.1).mpr (List.mem_map_of_mem hyin))
          exact ⟨x, hxin, hkey, ih x hxin y hyin hkey (hxs x hxin) (hys y hyin)⟩

/-- Writable values with canonical texts have the same one exactly if they are alike. -/
theorem text_eq_iff_alike (hv : Writable v) (hw : Writable w) (hcs : write .canonical v = .ok cs)
    (hcs' : write .canonical w = .ok cs') : cs = cs' ↔ v.Alike w := by
  constructor
  · rintro rfl
    exact alike_of_write_eq hv hw hcs hcs'
  · intro h
    have hsame := write_eq_of_alike hv hw h
    rw [hcs, hcs'] at hsame
    exact Except.ok.inj hsame

end Json

end ModelSchema
