import ModelSchema.Proofs.Json.Alike

/-!
# What the readable text of a value says

The readable text of a value spells its normal form: tuples become lists, values that JSON does not
know become their texts, and keys become names of properties, of which the last of a name counts.
Main statements: a value without floating-point numbers has a readable text exactly if no integer
inside is too long and no mapping that is reached from it has a key that names no property, or holds
itself; the text spells the normal form; and the values that are put together from plain ones are
their own normal form.
-/

namespace ModelSchema

variable {v w key : Value} {cs : List Char}

def Value.IsFloat (v : Value) : Prop := ∃ x, v = .float x

/-- No floating-point number is reached, not even as a key. -/
def Value.FloatFree : Value → Prop :=
  Throughout fun w => ¬ w.IsFloat ∧ ∀ key ∈ w.keys, ¬ key.IsFloat

namespace Json

/-- The keys that name properties: texts, integers, truth values and the missing value. -/
def NamesProperty : Value → Prop
  | .text _ | .int _ | .bool _ | .null => True
  | _ => False

/-- The name of the property that a key stands for. -/
def propertyName : Value → String
  | .text s => s
  | .int n => Number.integerText n
  | .bool b => if b then "true" else "false"
  | .null => "null"
  | key => key.plain

theorem keyText_of_namesProperty (h : NamesProperty key) (hs : key.isShowable = true) :
    keyText key = .ok (propertyName key) := by
  cases key with
  | text _ | bool _ | null => rfl
  | int n =>
    rw [keyText, writeInteger_eq_ok_iff.mpr ⟨hs, rfl⟩]
    rfl
  | _ => cases h

theorem namesProperty_of_keyText {name : String} (hf : ¬ key.IsFloat)
    (h : keyText key = .ok name) : NamesProperty key := by
  cases key with
  | text _ | int _ | bool _ | null => trivial
  | float x => exact absurd ⟨x, rfl⟩ hf
  | _ => cases h

mutual

/-- What is left of a value when it is written and read again. -/
def normal (v : Value) : Value :=
  match v with
  | .null => .null
  | .bool b => .bool b
  | .int n => .int n
  | .float x => .float x
  | .text s => .text s
  | .list items => .list (normalItems items)
  | .tuple items => .list (normalItems items)
  | .mapping entries => .mapping (Table.ofRows (normalEntries entries))
  | .knot before key after form => .knot before key after form
  | v => .text v.plain
termination_by structural v

def normalItems (items : List Value) : List Value :=
  match items with
  | [] => []
  | v :: rest => normal v :: normalItems rest
termination_by structural items

def normalEntries (entries : List (Value × Value)) : List (Value × Value) :=
  match entries with
  | [] => []
  | (key, v) :: rest => (.text (propertyName key), normal v) :: normalEntries rest
termination_by structural entries

end

theorem normalItems_eq_map (items : List Value) : normalItems items = items.map normal := by
  induction items with
  | nil => rfl
  | cons v rest ih => rw [normalItems, ih, List.map_cons]

theorem normalEntries_eq_map (entries : List (Value × Value)) :
    normalEntries entries =
      (entries.map fun entry => (propertyName entry.1, normal entry.2)).map propertyRow := by
  induction entries with
  | nil => rfl
  | cons entry rest ih =>
    rw [normalEntries, ih]
    rfl

/-- Values that are put together from plain ones by lists and mappings are their own normal form. -/
theorem Writable.normal_eq (h : Writable v) : normal v = v := by
  induction h with
  | null | bool _ | int _ | text _ => rfl
  | @list items _ ih =>
    have hitems : normalItems items = items := by
      rw [normalItems_eq_map]
      calc
        _ = items.map id := List.map_congr_left ih
        _ = items := List.map_id items
    rw [normal, hitems]
  | @mapping entries hk _ ih =>
    have hrows : normalEntries entries = entries := by
      rw [normalEntries_eq_map, List.map_map]
      calc
        _ = entries.map id := by
          apply List.map_congr_left
          intro entry hentry
          obtain ⟨n, hn⟩ := hk.text entry hentry
          simp [propertyRow, hn, propertyName, ih entry hentry, Prod.ext_iff]
        _ = entries := List.map_id entries
    rw [normal, hrows, Table.ofRows_eq_self hk.distinct]

theorem separates_readable :
    Separates ',' Style.readable.itemSeparator ∧ Separates ':' Style.readable.keySeparator :=
  ⟨⟨[' '], rfl, by simp⟩, ⟨[' '], rfl, by simp⟩⟩

theorem objectText_readable (rows : List (Value × Except WriteError (List Char))) :
    objectText .readable rows =
      (do
        let properties ← rows.mapM (·.2)
        pure ('\x7b' :: separated Style.readable.itemSeparator properties ++ ['\x7d'])) := rfl

/-- The readable text of the value spells its normal form. -/
def SpeltNormal (v : Value) : Prop := ∃ cs, write .readable v = .ok cs ∧ Spells cs (normal v)

theorem exists_texts {items : List Value} (h : ∀ v ∈ items, SpeltNormal v) :
    ∃ texts, writeItems .readable items = .ok texts ∧
      List.Forall₂ Spells texts (items.map normal) := by
  induction items with
  | nil => exact ⟨[], rfl, .nil⟩
  | cons v rest ih =>
    rw [List.forall_mem_cons] at h
    obtain ⟨⟨cs, hwrite, hspells⟩, hrest⟩ := h
    obtain ⟨texts, htexts, hall⟩ := ih hrest
    refine ⟨cs :: texts, ?_, .cons hspells hall⟩
    rw [writeItems, hwrite, htexts]
    rfl

theorem SpeltNormal.array {items : List Value} (h : ∀ v ∈ items, SpeltNormal v) :
    ∃ cs, (writeItems .readable items).map (arrayText .readable) = .ok cs ∧
      Spells cs (.list (normalItems items)) := by
  obtain ⟨texts, htexts, hspells⟩ := exists_texts h
  refine ⟨arrayText .readable texts, by rw [htexts]; rfl, ?_⟩
  rw [normalItems_eq_map]
  exact spells_array separates_readable.1 hspells

theorem exists_propertyTexts {entries : List (Value × Value)}
    (hk : ∀ entry ∈ entries, keyText entry.1 = .ok (propertyName entry.1))
    (h : ∀ entry ∈ entries, SpeltNormal entry.2) :
    ∃ texts,
      (entries.map fun entry => (entry.1, entryText .readable entry)).mapM (·.2) = .ok texts ∧
      List.Forall₂ (SpellsProperty Style.readable.keySeparator) texts
        (entries.map fun entry => (propertyName entry.1, normal entry.2)) := by
  induction entries with
  | nil => exact ⟨[], rfl, .nil⟩
  | cons entry rest ih =>
    rw [List.forall_mem_cons] at hk h
    obtain ⟨cs, hwrite, hspells⟩ := h.1
    obtain ⟨texts, htexts, hall⟩ := ih hk.2 h.2
    refine ⟨_ :: texts, ?_, .cons ⟨cs, rfl, hspells⟩ hall⟩
    rw [List.map_cons, List.mapM_cons, entryText_eq hk.1 hwrite, htexts]
    rfl

theorem SpeltNormal.mapping {entries : List (Value × Value)}
    (hk : ∀ entry ∈ entries, keyText entry.1 = .ok (propertyName entry.1))
    (h : ∀ entry ∈ entries, SpeltNormal entry.2) :
    SpeltNormal (.mapping entries) := by
  obtain ⟨texts, htexts, hspells⟩ := exists_propertyTexts hk h
  refine ⟨'\x7b' :: separated Style.readable.itemSeparator texts ++ ['\x7d'], ?_, ?_⟩
  · rw [write_mapping, objectText_readable, htexts]
    rfl
  · rw [normal, normalEntries_eq_map]
    exact spells_object separates_readable.1 separates_readable.2 hspells

/-- No mapping that is reached has a key that names no property, or holds itself. -/
def Plain : Value → Prop :=
  Value.Throughout fun w => (∀ key ∈ w.keys, NamesProperty key) ∧ ¬ w.HoldsItself

theorem Plain.speltNormal (hf : v.FloatFree) (hs : v.isShowable = true) (h : Plain v) :
    SpeltNormal v := by
  -- The induction is on the parts of values; only the contents of a knot are no parts of it.
  induction v using Value.part_induction with
  | step v ih =>
    have hknot : ¬ v.IsKnot := fun hv => h.self.2 (Value.holdsItself_iff.mpr hv)
    have hcontents : ∀ w ∈ v.contents, SpeltNormal w := by
      intro w hw
      exact ih w (Value.mem_parts_of_mem_contents hknot hw) (hf.of_mem hw)
        (Value.isShowable_of_mem_contents hknot hs hw) (h.of_mem hw)
    cases v with
    | null => exact ⟨_, by rw [write], spells_null⟩
    | bool b => exact ⟨_, by rw [write], spells_bool b⟩
    | int n => exact ⟨_, write_int hs, spells_int hs⟩
    | float x => exact absurd ⟨x, rfl⟩ hf.self.1
    | text s => exact ⟨_, by rw [write], spells_text s⟩
    | list items | tuple items =>
      obtain ⟨cs, hcs, hspells⟩ :=
        SpeltNormal.array (show ∀ w ∈ items, SpeltNormal w from hcontents)
      exact ⟨cs, by rw [write, hcs], hspells⟩
    | mapping entries =>
      apply SpeltNormal.mapping
      · intro entry hentry
        have hkey : entry.1.isShowable = true := (Value.entriesShowable_iff.mp hs entry hentry).1
        exact keyText_of_namesProperty (h.self.1 entry.1 (List.mem_map_of_mem hentry)) hkey
      · intro entry hentry
        exact hcontents entry.2 (List.mem_map_of_mem hentry)
    | knot before key after form => exact absurd ⟨before, key, after, form, rfl⟩ hknot
    | _ =>
      have hlenient : Style.readable.lenient = true := rfl
      exact ⟨_, by simp only [write, if_pos hlenient, if_pos hs], spells_text _⟩

theorem Writable.of_mem_contents (h : Writable v) (hw : w ∈ v.contents) : Writable w := by
  cases h with
  | null | bool _ | int _ | text _ => cases hw
  | list hitems => exact hitems w hw
  | mapping _ hentries =>
    obtain ⟨entry, hentry, rfl⟩ := List.mem_map.mp hw
    exact hentries entry hentry

theorem Writable.of_reaches (h : Writable v) (hw : v.Reaches w) : Writable w := by
  induction hw with
  | refl => exact h
  | tail _ hlast ih => exact ih.of_mem_contents hlast

theorem Writable.isShowable_of_reaches (h : Writable v) (hs : v.isShowable = true)
    (hw : v.Reaches w) : w.isShowable = true := by
  induction hw with
  | refl => exact hs
  | tail hreach hlast ih =>
    refine Value.isShowable_of_mem_contents ?_ ih hlast
    rintro ⟨before, key, after, form, rfl⟩
    cases h.of_reaches hreach

theorem Writable.keys_are_texts (h : Writable v) (hkey : key ∈ v.keys) : ∃ n, key = .text n := by
  cases h with
  | null | bool _ | int _ | text _ | list _ => cases hkey
  | mapping hk _ =>
    obtain ⟨entry, hentry, rfl⟩ := List.mem_map.mp hkey
    exact hk.text entry hentry

theorem Writable.floatFree (h : Writable v) : v.FloatFree := by
  intro w hw
  have hwritable := h.of_reaches hw
  constructor
  · rintro ⟨x, rfl⟩
    cases hwritable
  · rintro key hkey ⟨x, rfl⟩
    obtain ⟨n, hn⟩ := hwritable.keys_are_texts hkey
    cases hn

theorem Writable.plain (h : Writable v) : Plain v := by
  intro w hw
  have hwritable := h.of_reaches hw
  constructor
  · intro key hkey
    obtain ⟨n, rfl⟩ := hwritable.keys_are_texts hkey
    trivial
  · rw [Value.holdsItself_iff]
    rintro ⟨before, key, after, form, rfl⟩
    cases hwritable

theorem plain_of_write (hf : v.FloatFree) (h : write .readable v = .ok cs) : Plain v := by
  induction v using Value.part_induction generalizing cs with
  | step v ih =>
    have hknot := not_isKnot_of_write h
    obtain ⟨hkeys, hcontents⟩ := exists_of_write h
    apply Value.throughout_of_contents
    · refine ⟨?_, fun hself => hknot (Value.holdsItself_iff.mp hself)⟩
      intro key hkey
      obtain ⟨name, hname⟩ := hkeys key hkey
      exact namesProperty_of_keyText (hf.self.2 key hkey) hname
    · intro w hw
      obtain ⟨cs, hcs⟩ := hcontents w hw
      exact ih w (Value.mem_parts_of_mem_contents hknot hw) (hf.of_mem hw) hcs

/-- A value without floating-point numbers has a readable text exactly if it is plain and no integer
inside is too long. -/
theorem exists_write_iff (hf : v.FloatFree) :
    (∃ cs, write .readable v = .ok cs) ↔ v.isShowable = true ∧ Plain v := by
  constructor
  · rintro ⟨cs, hcs⟩
    exact ⟨isShowable_of_write hcs, plain_of_write hf hcs⟩
  · rintro ⟨hs, h⟩
    obtain ⟨cs, hcs, -⟩ := h.speltNormal hf hs
    exact ⟨cs, hcs⟩

end Json

end ModelSchema
