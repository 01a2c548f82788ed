import ModelSchema.Value.Signal

/-!
# Sameness of values

Being the same is an equivalence of values. Values nest through lists, mappings and named fields, so
statements about all of them are proved from the values that a value is made of (`part_induction`).
Mappings, sets and attribute objects are compared without regard to order: each row of one side has
a counterpart on the other (`Covers`), whether its key is a value or a name (`relatedRow`). For each
kind of value that is no number one lemma says what it is the same as; numbers are the same if they
have the same quantity. Reflexivity and the Euclidean property give symmetry and transitivity.
-/

namespace ModelSchema

/-- Each item of either list is related to one of the other. -/
def Covers {α : Type} (r : α → α → Bool) (xs ys : List α) : Prop :=
  (∀ x ∈ xs, ∃ y ∈ ys, r x y = true) ∧ ∀ y ∈ ys, ∃ x ∈ xs, r x y = true

namespace Covers

variable {α : Type} {r : α → α → Bool} {xs ys zs : List α}

theorem refl (h : ∀ x ∈ xs, r x x = true) : Covers r xs xs :=
  ⟨fun x hx => ⟨x, hx, h x hx⟩, fun x hx => ⟨x, hx, h x hx⟩⟩

/-- Two lists that cover a third cover each other. -/
theorem euclid (h : Covers r xs ys) (h' : Covers r xs zs)
    (hr : ∀ x ∈ xs, ∀ y z, r x y = true → r x z = true → r y z = true) : Covers r ys zs := by
  constructor
  · intro y hy
    obtain ⟨x, hx, hxy⟩ := h.2 y hy
    obtain ⟨z, hz, hxz⟩ := h'.1 x hx
    exact ⟨z, hz, hr x hx y z hxy hxz⟩
  · intro z hz
    obtain ⟨x, hx, hxz⟩ := h'.2 z hz
    obtain ⟨y, hy, hxy⟩ := h.1 x hx
    exact ⟨y, hy, hr x hx y z hxy hxz⟩

/-- A comparison that runs through the first list for the rows of either side finds out whether the
two lists cover each other. -/
theorem iff_of_recursion (every : List α → List α → Bool) (has : List α → α → Bool)
    (every_nil : ∀ bs, every [] bs = true)
    (every_cons : ∀ a as bs, every (a :: as) bs = ((bs.any fun b => r a b) && every as bs))
    (has_nil : ∀ b, has [] b = false) (has_cons : ∀ a as b, has (a :: as) b = (r a b || has as b)) :
    (every xs ys && ys.all fun y => has xs y) = true ↔ Covers r xs ys := by
  have hevery (as bs : List α) : every as bs = as.all fun a => bs.any fun b => r a b := by
    induction as with
    | nil => exact every_nil bs
    | cons a as ih => rw [every_cons, ih, List.all_cons]
  have hhas (as : List α) (b : α) : has as b = as.any fun a => r a b := by
    induction as with
    | nil => exact has_nil b
    | cons a as ih => rw [has_cons, ih, List.any_cons]
  simp only [hevery, hhas, Covers, Bool.and_eq_true, List.all_eq_true, List.any_eq_true]

end Covers

/-- Whether two rows have the same key and values that a test relates. -/
def relatedRow {κ α : Type} [BEq κ] (same : α → α → Bool) (row other : κ × α) : Bool :=
  row.1 == other.1 && same row.2 other.2

namespace Value

/-- The values that a value is made of, keys included. -/
def parts : Value → List Value
  | .list items | .tuple items | .set items => items
  | .mapping entries => entries.flatMap fun entry => [entry.1, entry.2]
  | .knot before key after _ => key :: (before ++ after).flatMap fun entry => [entry.1, entry.2]
  | .object fields | .record _ fields => fields.map (·.2)
  | _ => []

theorem sizeOf_lt_of_mem_rows {κ : Type} [SizeOf κ] {rows : List (κ × Value)} {row : κ × Value}
    (h : row ∈ rows) : sizeOf row.1 < sizeOf rows ∧ sizeOf row.2 < sizeOf rows := by
  have hlt := List.sizeOf_lt_of_mem h
  have hrow : sizeOf row = 1 + sizeOf row.1 + sizeOf row.2 := rfl
  omega

theorem sizeOf_lt_of_mem_entries {entries : List (Value × Value)} {w : Value}
    (h : w ∈ entries.flatMap fun entry => [entry.1, entry.2]) : sizeOf w < sizeOf entries := by
  obtain ⟨entry, hentry, hw⟩ := List.mem_flatMap.mp h
  simp only [List.mem_cons, List.not_mem_nil, or_false] at hw
  rcases hw with rfl | rfl
  · exact (sizeOf_lt_of_mem_rows hentry).1
  · exact (sizeOf_lt_of_mem_rows hentry).2

theorem sizeOf_lt_of_mem_parts {v w : Value} (h : w ∈ v.parts) : sizeOf w < sizeOf v := by
  cases v with
  | list items | tuple items | set items =>
    have := List.sizeOf_lt_of_mem (show w ∈ items from h)
    simp only [list.sizeOf_spec, tuple.sizeOf_spec, set.sizeOf_spec]
    omega
  | mapping entries =>
    have := sizeOf_lt_of_mem_entries (show w ∈ entries.flatMap _ from h)
    simp only [mapping.sizeOf_spec]
    omega
  | knot before key after form =>
    simp only [knot.sizeOf_spec]
    simp only [parts, List.flatMap_append, List.mem_cons, List.mem_append] at h
    rcases h with rfl | h | h
    · omega
    · have := sizeOf_lt_of_mem_entries h
      omega
    · have := sizeOf_lt_of_mem_entries h
      omega
  | object fields | record shape fields =>
    obtain ⟨field, hfield, rfl⟩ := List.mem_map.mp (show w ∈ fields.map _ from h)
    have := (sizeOf_lt_of_mem_rows hfield).2
    simp only [object.sizeOf_spec, record.sizeOf_spec]
    omega
  | _ => simp [parts] at h

/-- What holds of a value if it holds of the values that it is made of, holds of all values. -/
theorem part_induction {P : Value → Prop} (step : ∀ v, (∀ w ∈ v.parts, P w) → P v) (v : Value) :
    P v :=
  step v fun w _hw => part_induction step w
termination_by sizeOf v
decreasing_by exact sizeOf_lt_of_mem_parts _hw

theorem covers_items_iff {xs ys : List Value} :
    (itemsIn xs ys && ys.all fun y => hasItem xs y) = true ↔ Covers same xs ys :=
  Covers.iff_of_recursion itemsIn hasItem
    (fun _ => rfl) (fun _ _ _ => rfl) (fun _ => rfl) fun _ _ _ => rfl

theorem covers_entries_iff {xs ys : List (Value × Value)} :
    (entriesIn xs ys && ys.all fun y => hasEntry xs y.1 y.2) = true ↔
      Covers (relatedRow same) xs ys :=
  Covers.iff_of_recursion entriesIn (fun as b => hasEntry as b.1 b.2)
    (fun _ => rfl) (fun _ _ _ => rfl) (fun _ => rfl) fun _ _ _ => rfl

theorem covers_fields_iff {xs ys : List (String × Value)} :
    (fieldsIn xs ys && ys.all fun y => hasField xs y.1 y.2) = true ↔
      Covers (relatedRow same) xs ys :=
  Covers.iff_of_recursion fieldsIn (fun as b => hasField as b.1 b.2)
    (fun _ => rfl) (fun _ _ _ => rfl) (fun _ => rfl) fun _ _ _ => rfl

theorem sameItems_refl {items : List Value} (h : ∀ v ∈ items, v.same v = true) :
    sameItems items items = true := by
  induction items with
  | nil => rfl
  | cons v rest ih =>
    rw [sameItems, h v (by simp), ih fun w hw => h w (by simp [hw])]
    rfl

theorem null_same_iff {b : Value} : null.same b = true ↔ b = null := by
  cases b with
  | null => exact iff_of_true rfl rfl
  | _ => exact iff_of_false Bool.false_ne_true (by simp)

theorem text_same_iff {s : String} {b : Value} : (text s).same b = true ↔ b = text s := by
  cases b with
  | text other =>
    have hs : (text s).same (text other) = (s == other) := rfl
    simpa [hs] using eq_comm
  | _ => exact iff_of_false Bool.false_ne_true (by simp)

theorem list_same_iff {xs : List Value} {b : Value} :
    (list xs).same b = true ↔ ∃ ys, b = list ys ∧ sameItems xs ys = true := by
  cases b with
  | list ys =>
    have hs : (list xs).same (list ys) = sameItems xs ys := rfl
    simp [hs]
  | _ => exact iff_of_false Bool.false_ne_true (by simp)

theorem tuple_same_iff {xs : List Value} {b : Value} :
    (tuple xs).same b = true ↔ ∃ ys, b = tuple ys ∧ sameItems xs ys = true := by
  cases b with
  | tuple ys =>
    have hs : (tuple xs).same (tuple ys) = sameItems xs ys := rfl
    simp [hs]
  | _ => exact iff_of_false Bool.false_ne_true (by simp)

theorem set_same_iff {xs : List Value} {b : Value} :
    (set xs).same b = true ↔ ∃ ys, b = set ys ∧ Covers same xs ys := by
  cases b with
  | set ys =>
    have hs : (set xs).same (set ys) = (itemsIn xs ys && ys.all fun y => hasItem xs y) := rfl
    rw [hs, covers_items_iff]
    simp
  | _ => exact iff_of_false Bool.false_ne_true (by simp)

theorem mapping_same_iff {xs : List (Value × Value)} {b : Value} :
    (mapping xs).same b = true ↔ ∃ ys, b = mapping ys ∧ Covers (relatedRow same) xs ys := by
  cases b with
  | mapping ys =>
    have hs : (mapping xs).same (mapping ys) =
      (entriesIn xs ys && ys.all fun y => hasEntry xs y.1 y.2) := rfl
    rw [hs, covers_entries_iff]
    simp
  | _ => exact iff_of_false Bool.false_ne_true (by simp)

theorem knot_same_iff {before after : List (Value × Value)} {key b : Value} {form : KnotForm} :
    (knot before key after form).same b = true ↔
      ∃ before' key' after', b = knot before' key' after' form ∧
        Covers (relatedRow same) before before' ∧ key.same key' = true ∧
        Covers (relatedRow same) after after' := by
  cases b with
  | knot before' key' after' form' =>
    have hs : (knot before key after form).same (knot before' key' after' form') =
        (entriesIn before before' && (before'.all fun y => hasEntry before y.1 y.2) && key.same key'
          && entriesIn after after' && (after'.all fun y => hasEntry after y.1 y.2) && form ==
          form') := rfl
    simp only [hs, Bool.and_eq_true, beq_iff_eq, knot.injEq, ← covers_entries_iff]
    constructor
    · rintro ⟨⟨⟨⟨⟨hb, hb'⟩, hk⟩, ha⟩, ha'⟩, rfl⟩
      exact ⟨before', key', after', ⟨rfl, rfl, rfl, rfl⟩, ⟨hb, hb'⟩, hk, ha, ha'⟩
    · rintro ⟨_, _, _, ⟨rfl, rfl, rfl, rfl⟩, ⟨hb, hb'⟩, hk, ha, ha'⟩
      exact ⟨⟨⟨⟨⟨hb, hb'⟩, hk⟩, ha⟩, ha'⟩, rfl⟩
  | _ => exact iff_of_false Bool.false_ne_true (by simp)

theorem object_same_iff {xs : List (String × Value)} {b : Value} :
    (object xs).same b = true ↔ ∃ ys, b = object ys ∧ Covers (relatedRow same) xs ys := by
  cases b with
  | object ys =>
    have hs : (object xs).same (object ys) =
      (fieldsIn xs ys && ys.all fun y => hasField xs y.1 y.2) := rfl
    rw [hs, covers_fields_iff]
    simp
  | _ => exact iff_of_false Bool.false_ne_true (by simp)

theorem record_same_iff {shape : String} {xs : List (String × Value)} {b : Value} :
    (record shape xs).same b = true ↔
      ∃ ys, b = record shape ys ∧ Covers (relatedRow same) xs ys := by
  cases b with
  | record shape' ys =>
    have hs : (record shape xs).same (record shape' ys) =
        (shape == shape' && fieldsIn xs ys && ys.all fun y => hasField xs y.1 y.2) := rfl
    simp only [hs, Bool.and_eq_true, beq_iff_eq, record.injEq, ← covers_fields_iff]
    constructor
    · rintro ⟨⟨rfl, h⟩, h'⟩
      exact ⟨ys, ⟨rfl, rfl⟩, h, h'⟩
    · rintro ⟨_, ⟨rfl, rfl⟩, h, h'⟩
      exact ⟨⟨rfl, h⟩, h'⟩
  | _ => exact iff_of_false Bool.false_ne_true (by simp)

theorem type_same_iff {t : TypeObject} {b : Value} : (type t).same b = true ↔ b = type t := by
  cases b with
  | type other =>
    have hs : (type t).same (type other) = (t == other) := rfl
    simpa [hs] using eq_comm
  | _ => exact iff_of_false Bool.false_ne_true (by simp)

theorem date_same_iff {d : Calendar.Date} {b : Value} : (date d).same b = true ↔ b = date d := by
  cases b with
  | date other =>
    have hs : (date d).same (date other) = (d == other) := rfl
    simpa [hs] using eq_comm
  | _ => exact iff_of_false Bool.false_ne_true (by simp)

theorem dateTime_same_iff {d : Calendar.DateTime} {b : Value} :
    (dateTime d).same b = true ↔ ∃ e, b = dateTime e ∧ d.same e = true := by
  cases b with
  | dateTime e =>
    have hs : (dateTime d).same (dateTime e) = d.same e := rfl
    simp [hs]
  | _ => exact iff_of_false Bool.false_ne_true (by simp)

theorem bytes_same_iff {content : List UInt8} {b : Value} :
    (bytes content).same b = true ↔ b = bytes content := by
  cases b with
  | bytes other =>
    have hs : (bytes content).same (bytes other) = (content == other) := rfl
    simpa [hs] using eq_comm
  | _ => exact iff_of_false Bool.false_ne_true (by simp)

theorem enumerator_same_iff {enumeration written : String} {b : Value} :
    (enumerator enumeration written).same b = true ↔ b = enumerator enumeration written := by
  cases b with
  | enumerator enumeration' written' =>
    have hs : (enumerator enumeration written).same (enumerator enumeration' written') =
        (enumeration == enumeration' && written == written') := rfl
    simp only [hs, Bool.and_eq_true, beq_iff_eq, enumerator.injEq]
    exact and_congr eq_comm eq_comm
  | _ => exact iff_of_false Bool.false_ne_true (by simp)

theorem same_of_quantity {a b : Value} {q : Quantity} (ha : a.quantity? = some q) :
    a.same b = true ↔ b.quantity? = some q := by
  have hs : a.same b = a.sameQuantity b := by
    cases a with
    | bool | int | float | decimal => cases b <;> rfl
    | _ => cases ha
  rw [hs, sameQuantity, ha]
  cases hb : b.quantity? with
  | none => simp
  | some r => simpa using eq_comm

theorem sameItems_euclid {xs ys zs : List Value} (h : sameItems xs ys = true)
    (h' : sameItems xs zs = true)
    (hs : ∀ x ∈ xs, ∀ y z, x.same y = true → x.same z = true → y.same z = true) :
    sameItems ys zs = true := by
  induction xs generalizing ys zs with
  | nil => 
    cases ys <;> cases zs <;> simp [sameItems] at h h' ⊢
  | cons x xs ih =>
    cases ys with
    | nil => simp [sameItems] at h
    | cons y ys =>
      cases zs with
      | nil => simp [sameItems] at h'
      | cons z zs =>
        simp only [sameItems, Bool.and_eq_true] at h h' ⊢
        exact ⟨hs x (by simp) y z h.1 h'.1, ih h.2 h'.2 fun w hw => hs w (by simp [hw])⟩

theorem forall_mem_entries {P : Value → Prop} {entries : List (Value × Value)} :
    (∀ w ∈ entries.flatMap fun entry => [entry.1, entry.2], P w) ↔
      ∀ entry ∈ entries, P entry.1 ∧ P entry.2 := by
  simp only [List.mem_flatMap, List.mem_cons, List.not_mem_nil, or_false]
  constructor
  · intro h entry he
    exact ⟨h _ ⟨entry, he, .inl rfl⟩, h _ ⟨entry, he, .inr rfl⟩⟩
  · rintro h w ⟨entry, he, rfl | rfl⟩
    · exact (h entry he).1
    · exact (h entry he).2

theorem forall_mem_fields {P : Value → Prop} {fields : List (String × Value)} :
    (∀ w ∈ fields.map (·.2), P w) ↔ ∀ field ∈ fields, P field.2 := by
  simp only [List.mem_map, forall_exists_index, and_imp, forall_apply_eq_imp_iff₂]

theorem forall_mem_knot {P : Value → Prop} {before after : List (Value × Value)} {key : Value}
    {form : KnotForm} :
    (∀ w ∈ (knot before key after form).parts, P w) ↔
      P key ∧ (∀ entry ∈ before, P entry.1 ∧ P entry.2) ∧
        ∀ entry ∈ after, P entry.1 ∧ P entry.2 := by
  simp only [parts, List.flatMap_append, List.forall_mem_cons, List.forall_mem_append,
    forall_mem_entries]

theorem covers_rows_refl {κ : Type} [BEq κ] {rows : List (κ × Value)}
    (h : ∀ row ∈ rows, (row.1 == row.1) = true ∧ row.2.same row.2 = true) :
    Covers (relatedRow same) rows rows :=
  Covers.refl fun row hr => by rw [relatedRow, (h row hr).1, (h row hr).2, Bool.and_self]

/-- Every value is the same as itself, a number that is not a number included. -/
theorem same_refl (v : Value) : v.same v = true := by
  induction v using part_induction with
  | step v ih =>
    cases v with
    | null => rfl
    | bool b => exact (same_of_quantity rfl).mpr rfl
    | int n => exact (same_of_quantity rfl).mpr rfl
    | float x => cases x <;> exact (same_of_quantity rfl).mpr rfl
    | decimal d => cases d <;> exact (same_of_quantity rfl).mpr rfl
    | list items => exact list_same_iff.mpr ⟨items, rfl, sameItems_refl ih⟩
    | tuple items => exact tuple_same_iff.mpr ⟨items, rfl, sameItems_refl ih⟩
    | set items => exact set_same_iff.mpr ⟨items, rfl, Covers.refl ih⟩
    | mapping rows =>
      exact mapping_same_iff.mpr ⟨rows, rfl, covers_rows_refl (forall_mem_entries.mp ih)⟩
    | knot before key after form =>
      obtain ⟨hk, hb, ha⟩ := forall_mem_knot.mp ih
      exact knot_same_iff.mpr
        ⟨before, key, after, rfl, covers_rows_refl hb, hk, covers_rows_refl ha⟩
    | object rows =>
      have hs := forall_mem_fields.mp ih
      exact object_same_iff.mpr ⟨rows, rfl, covers_rows_refl fun row hr => ⟨BEq.rfl, hs row hr⟩⟩
    | record shape rows =>
      have hs := forall_mem_fields.mp ih
      exact record_same_iff.mpr ⟨rows, rfl, covers_rows_refl fun row hr => ⟨BEq.rfl, hs row hr⟩⟩
    | dateTime d => exact dateTime_same_iff.mpr ⟨d, rfl, by simp [Calendar.DateTime.same]⟩
    | text s => exact text_same_iff.mpr rfl
    | type t => exact type_same_iff.mpr rfl
    | date d => exact date_same_iff.mpr rfl
    | bytes content => exact bytes_same_iff.mpr rfl
    | enumerator enumeration written => exact enumerator_same_iff.mpr rfl

theorem covers_rows_euclid {κ : Type} [BEq κ] {rows ys zs : List (κ × Value)}
    (h : Covers (relatedRow same) rows ys) (h' : Covers (relatedRow same) rows zs)
    (hs : ∀ row ∈ rows,
      (∀ b c, (row.1 == b) = true → (row.1 == c) = true → (b == c) = true) ∧
        ∀ b c, row.2.same b = true → row.2.same c = true → b.same c = true) :
    Covers (relatedRow same) ys zs := by
  apply Covers.euclid h h'
  intro row hr y z hy hz
  simp only [relatedRow, Bool.and_eq_true] at hy hz ⊢
  exact ⟨(hs row hr).1 _ _ hy.1 hz.1, (hs row hr).2 _ _ hy.2 hz.2⟩

/-- Two values that are the same as a third are the same. -/
theorem same_euclid {a b c : Value} (hb : a.same b = true) (hc : a.same c = true) :
    b.same c = true := by
  induction a using part_induction generalizing b c with
  | step a ih =>
    cases hq : a.quantity? with
    | some q =>
      exact (same_of_quantity ((same_of_quantity hq).mp hb)).mpr ((same_of_quantity hq).mp hc)
    | none =>
      cases a with
      | bool | int => simp [quantity?] at hq
      | float x => cases x <;> simp [quantity?, Number.Binary64.exactValue?] at hq
      | decimal d => cases d <;> simp [quantity?, Number.Decimal.exactValue?] at hq
      | null | text | type | date | bytes | enumerator =>
        simp only [null_same_iff, text_same_iff, type_same_iff, date_same_iff, bytes_same_iff,
          enumerator_same_iff] at hb hc
        subst hb hc
        exact same_refl _
      | dateTime d =>
        obtain ⟨e, rfl, he⟩ := dateTime_same_iff.mp hb
        obtain ⟨e', rfl, he'⟩ := dateTime_same_iff.mp hc
        refine dateTime_same_iff.mpr ⟨e', rfl, ?_⟩
        simp only [Calendar.DateTime.same, Bool.and_eq_true, beq_iff_eq] at he he' ⊢
        exact ⟨he.1.symm.trans he'.1, he.2.symm.trans he'.2⟩
      | list items =>
        obtain ⟨ys, rfl, hy⟩ := list_same_iff.mp hb
        obtain ⟨zs, rfl, hz⟩ := list_same_iff.mp hc
        exact list_same_iff.mpr ⟨zs, rfl, sameItems_euclid hy hz fun x hx _ _ => ih x hx⟩
      | tuple items =>
        obtain ⟨ys, rfl, hy⟩ := tuple_same_iff.mp hb
        obtain ⟨zs, rfl, hz⟩ := tuple_same_iff.mp hc
        exact tuple_same_iff.mpr ⟨zs, rfl, sameItems_euclid hy hz fun x hx _ _ => ih x hx⟩
      | set items =>
        obtain ⟨ys, rfl, hy⟩ := set_same_iff.mp hb
        obtain ⟨zs, rfl, hz⟩ := set_same_iff.mp hc
        exact set_same_iff.mpr ⟨zs, rfl, Covers.euclid hy hz fun x hx _ _ => ih x hx⟩
      | mapping rows =>
        obtain ⟨ys, rfl, hy⟩ := mapping_same_iff.mp hb
        obtain ⟨zs, rfl, hz⟩ := mapping_same_iff.mp hc
        have hs := forall_mem_entries.mp fun w hw b c => ih w hw (b := b) (c := c)
        exact mapping_same_iff.mpr ⟨zs, rfl, covers_rows_euclid hy hz hs⟩
      | knot before key after form =>
        obtain ⟨before', key', after', rfl, hb', hk', ha'⟩ := knot_same_iff.mp hb
        obtain ⟨before'', key'', after'', rfl, hb'', hk'', ha''⟩ := knot_same_iff.mp hc
        obtain ⟨hk, hb, ha⟩ := forall_mem_knot.mp fun w hw b c => ih w hw (b := b) (c := c)
        exact knot_same_iff.mpr
          ⟨before'', key'', after'', rfl, covers_rows_euclid hb' hb'' hb, hk _ _ hk' hk'',
            covers_rows_euclid ha' ha'' ha⟩
      | object rows =>
        obtain ⟨ys, rfl, hy⟩ := object_same_iff.mp hb
        obtain ⟨zs, rfl, hz⟩ := object_same_iff.mp hc
        have hs := forall_mem_fields.mp fun w hw b c => ih w hw (b := b) (c := c)
        exact object_same_iff.mpr ⟨zs, rfl, covers_rows_euclid hy hz fun row hr =>
          ⟨fun _ _ h h' => BEq.trans (BEq.symm h) h', hs row hr⟩⟩
      | record shape rows =>
        obtain ⟨ys, rfl, hy⟩ := record_same_iff.mp hb
        obtain ⟨zs, rfl, hz⟩ := record_same_iff.mp hc
        have hs := forall_mem_fields.mp fun w hw b c => ih w hw (b := b) (c := c)
        exact record_same_iff.mpr ⟨zs, rfl, covers_rows_euclid hy hz fun row hr =>
          ⟨fun _ _ h h' => BEq.trans (BEq.symm h) h', hs row hr⟩⟩

instance : EquivBEq Value where
  rfl {a} := same_refl a
  symm {a _} h := same_euclid h (same_refl a)
  trans {a _ _} h h' := same_euclid (same_euclid h (same_refl a)) h'

end Value

end ModelSchema
