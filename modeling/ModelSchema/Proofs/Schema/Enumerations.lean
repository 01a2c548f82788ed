import ModelSchema.Proofs.Schema.PlainModels
import ModelSchema.Proofs.Value.Quantities
import ModelSchema.Schema.DerivedType

/-!
# Values of enumerations

An enumeration keeps of each group of equal values the one that is declared first. Values that are
free of undefined numbers can always be told apart. Main statement: the enumeration of such values
can be built and lists the first occurrences in their order; each declared value is the same as one
that is kept and stands no later, and building the enumeration of what is kept gives it again.
-/

namespace ModelSchema

namespace Value

variable {v w : Value} {kept values : List Value}

/-- Not a number. -/
def IsUndefined : Value → Prop
  | .float (.undefined _) | .decimal (.undefined ..) => True
  | _ => False

/-- No number inside a value, at any depth, is undefined. -/
inductive Defined : Value → Prop
  | of_parts {v : Value} (here : ¬ v.IsUndefined) (inside : ∀ w ∈ v.parts, Defined w) : Defined v

theorem Defined.of_mem (h : v.Defined) (hw : w ∈ v.parts) : w.Defined := by
  cases h with
  | of_parts _ inside => exact inside w hw

theorem Defined.not_signalling (h : v.Defined) : v.isSignalling = false := by
  cases h with
  | of_parts here _ =>
    unfold isSignalling
    split
    · exact absurd trivial here
    · rfl

theorem numberSignals_of_defined (hv : v.Defined) (hw : w.Defined) : numberSignals v w = false := by
  unfold numberSignals
  split
  · rw [hv.not_signalling, hw.not_signalling]
    rfl
  · rfl

theorem itemsSignal_of_parts {xs ys : List Value}
    (h : ∀ x ∈ xs, ∀ y ∈ ys, x.signals y = false) : itemsSignal xs ys = false := by
  induction xs generalizing ys with
  | nil => rfl
  | cons x xs ih =>
    cases ys with
    | nil => rfl
    | cons y ys =>
      rw [itemsSignal, h x List.mem_cons_self y List.mem_cons_self,
        ih fun a ha b hb => h a (List.mem_cons_of_mem _ ha) b (List.mem_cons_of_mem _ hb),
        Bool.and_false, Bool.or_false]

/-- A comparison row by row that looks the rows of one side up in the other comes upon no signal if
no two of their values do. -/
theorem rowsSignal_eq_false {κ : Type} [BEq κ] {xs ys : List (κ × Value)}
    (rowsSignal : List (κ × Value) → Bool) (nil : rowsSignal [] = false)
    (cons : ∀ k v as, rowsSignal ((k, v) :: as) = match Table.find? k ys with
      | none => false
      | some w => v.signals w || (v.same w && rowsSignal as))
    (h : ∀ x ∈ xs, ∀ y ∈ ys, x.2.signals y.2 = false) : rowsSignal xs = false := by
  induction xs with
  | nil => exact nil
  | cons x xs ih =>
    rw [cons]
    split
    · rfl
    · rename_i found hfound
      obtain ⟨y, hy, -, rfl⟩ := Table.mem_of_find? hfound
      rw [h x List.mem_cons_self y hy, ih fun a ha => h a (List.mem_cons_of_mem _ ha),
        Bool.and_false, Bool.or_false]

theorem entriesSignal_of_parts {xs ys : List (Value × Value)}
    (h : ∀ v ∈ (mapping xs).parts, ∀ w ∈ (mapping ys).parts, v.signals w = false) :
    entriesSignal xs ys = false :=
  rowsSignal_eq_false (fun as => entriesSignal as ys) rfl (fun _ _ _ => rfl) fun x hx y hy =>
    (forall_mem_entries.mp ((forall_mem_entries.mp h) x hx).2 y hy).2

theorem fieldsSignal_of_parts {xs ys : List (String × Value)}
    (h : ∀ v ∈ (object xs).parts, ∀ w ∈ (object ys).parts, v.signals w = false) :
    fieldsSignal xs ys = false :=
  rowsSignal_eq_false (fun as => fieldsSignal as ys) rfl (fun _ _ _ => rfl) fun x hx y hy =>
    h x.2 (List.mem_map_of_mem hx) y.2 (List.mem_map_of_mem hy)

theorem Defined.signals (hv : v.Defined) (hw : w.Defined) : v.signals w = false := by
  induction v using part_induction generalizing w with
  | step v ih =>
    have hparts : ∀ x ∈ v.parts, ∀ y ∈ w.parts, x.signals y = false :=
      fun x hx y hy => ih x hx (hv.of_mem hx) (hw.of_mem hy)
    unfold Value.signals
    split
    · rename_i xs ys
      have hitems : itemsSignal xs ys = false := itemsSignal_of_parts hparts
      rw [hitems, Bool.and_false]
    · exact itemsSignal_of_parts hparts
    · rw [entriesSignal_of_parts hparts, Bool.and_false]
    · rw [fieldsSignal_of_parts hparts, Bool.and_false]
    · rw [fieldsSignal_of_parts hparts, Bool.and_false]
    · exact numberSignals_of_defined hv hw

theorem searchSignals_of_defined (hv : v.Defined) (hk : ∀ k ∈ kept, k.Defined) :
    searchSignals v kept = false := by
  induction kept with
  | nil => rfl
  | cons k rest ih =>
    rw [List.forall_mem_cons] at hk
    rw [searchSignals, hk.1.signals hv, ih hk.2, Bool.and_false, Bool.or_false]

theorem distinctSignals_of_defined (hk : ∀ k ∈ kept, k.Defined) (hv : ∀ v ∈ values, v.Defined) :
    distinctSignals kept values = false := by
  induction values generalizing kept with
  | nil => rfl
  | cons v rest ih =>
    rw [List.forall_mem_cons] at hv
    have hnext : ∀ k ∈ (if kept.contains v then kept else kept ++ [v]), k.Defined := by
      split
      · exact hk
      · exact List.forall_mem_append.mpr ⟨hk, by simpa using hv.1⟩
    rw [distinctSignals, searchSignals_of_defined hv.1 hk, ih hnext hv.2, Bool.or_false]

/-- The values that are not the same as one before them, in order. -/
def firstOccurrences (values : List Value) : List Value :=
  (List.range values.length).filterMap fun i =>
    values[i]?.filter fun v => !(values.take i).contains v

theorem mem_firstOccurrences_iff : v ∈ firstOccurrences values ↔
    ∃ i, values[i]? = some v ∧ (values.take i).contains v = false := by
  simp only [firstOccurrences, List.mem_filterMap, List.mem_range, Option.filter_eq_some_iff,
    Bool.not_eq_true']
  constructor
  · rintro ⟨i, -, h⟩
    exact ⟨i, h⟩
  · rintro ⟨i, hi, h⟩
    exact ⟨i, (List.getElem?_eq_some_iff.mp hi).1, hi, h⟩

theorem firstOccurrences_concat (values : List Value) (v : Value) :
    firstOccurrences (values ++ [v]) =
      firstOccurrences values ++ if values.contains v then [] else [v] := by
  have hfront : ∀ i ∈ List.range values.length,
      (values ++ [v])[i]?.filter (fun w => !((values ++ [v]).take i).contains w) =
        values[i]?.filter fun w => !(values.take i).contains w := by
    intro i hi
    have hlt := List.mem_range.mp hi
    rw [List.getElem?_append_left hlt, List.take_append_of_le_length (Nat.le_of_lt hlt)]
  rw [firstOccurrences, List.length_append, List.length_singleton, List.range_succ,
    List.filterMap_append, List.filterMap_congr hfront, ← firstOccurrences]
  have hlast : (values ++ [v])[values.length]? = some v := by
    rw [List.getElem?_append_right (Nat.le_refl _), Nat.sub_self]
    rfl
  simp only [List.filterMap_cons, List.filterMap_nil, hlast, List.take_left, Option.filter_some]
  cases values.contains v <;> rfl

theorem contains_of_mem_take {i j : Nat} (hj : values[j]? = some w) (hlt : j < i)
    (h : (w == v) = true) : (values.take i).contains v = true := by
  have hmem : w ∈ values.take i := by
    apply List.mem_of_getElem? (i := j)
    rw [List.getElem?_take_of_lt hlt, hj]
  exact List.contains_iff_exists_mem_beq.mpr ⟨w, hmem, BEq.symm h⟩

theorem earliest_of_mem_firstOccurrences (h : v ∈ firstOccurrences values) :
    ∃ i : Nat, values[i]? = some v ∧
      ∀ (j : Nat) w, values[j]? = some w → (w == v) = true → i ≤ j := by
  obtain ⟨i, hi, hnew⟩ := mem_firstOccurrences_iff.mp h
  refine ⟨i, hi, fun j w hj hsame => Nat.le_of_not_lt ?_⟩
  intro hlt
  rw [contains_of_mem_take hj hlt hsame] at hnew
  cases hnew

/-- Each value is the same as one that is kept and stands no later. -/
theorem exists_firstOccurrence {i : Nat} (hi : values[i]? = some v) :
    ∃ j k, j ≤ i ∧ values[j]? = some k ∧ k ∈ firstOccurrences values ∧ (k == v) = true := by
  induction i using Nat.strong_induction_on generalizing v with
  | h i ih =>
    cases hnew : (values.take i).contains v with
    | false => exact ⟨i, v, Nat.le_refl i, hi, mem_firstOccurrences_iff.mpr ⟨i, hi, hnew⟩, BEq.rfl⟩
    | true =>
      obtain ⟨w, hmem, hsame⟩ := List.contains_iff_exists_mem_beq.mp hnew
      obtain ⟨j, hj⟩ := List.getElem?_of_mem hmem
      have hlt : j < i := by
        have hlength := (List.getElem?_eq_some_iff.mp hj).1
        rw [List.length_take] at hlength
        omega
      rw [List.getElem?_take_of_lt hlt] at hj
      obtain ⟨m, k, hle, hm, hk, hkw⟩ := ih j hlt hj
      exact ⟨m, k, by omega, hm, hk, BEq.trans hkw (BEq.symm hsame)⟩

theorem pairwise_firstOccurrences (values : List Value) :
    (firstOccurrences values).Pairwise fun a b => (a == b) = false := by
  refine List.pairwise_filterMap.mpr (List.pairwise_lt_range.imp ?_)
  intro i j hlt a ha b hb
  obtain ⟨hi, -⟩ := Option.filter_eq_some_iff.mp ha
  obtain ⟨-, hnew⟩ := Option.filter_eq_some_iff.mp hb
  cases hsame : a == b with
  | false => rfl
  | true =>
    rw [contains_of_mem_take hi hlt hsame] at hnew
    cases hnew

theorem distinctOnto_concat (kept values : List Value) (v : Value) :
    distinctOnto kept (values ++ [v]) =
      distinctOnto kept values ++ if (distinctOnto kept values).contains v then [] else [v] := by
  induction values generalizing kept with
  | nil =>
    change (if kept.contains v = true then kept else kept ++ [v]) =
      kept ++ if kept.contains v = true then [] else [v]
    by_cases hc : kept.contains v = true
    · rw [if_pos hc, if_pos hc, List.append_nil]
    · rw [if_neg hc, if_neg hc]
  | cons w rest ih => exact ih _

theorem distinct_eq_firstOccurrences (values : List Value) :
    distinct values = firstOccurrences values := by
  induction values using List.reverseRecOn with
  | nil => rfl
  | append_singleton values v ih =>
    have hcontains : (firstOccurrences values).contains v = values.contains v := by
      rw [Bool.eq_iff_iff, List.contains_iff_exists_mem_beq, List.contains_iff_exists_mem_beq]
      constructor
      · rintro ⟨w, hw, hsame⟩
        obtain ⟨i, hi, -⟩ := mem_firstOccurrences_iff.mp hw
        exact ⟨w, List.mem_of_getElem? hi, hsame⟩
      · rintro ⟨w, hw, hsame⟩
        obtain ⟨i, hi⟩ := List.getElem?_of_mem hw
        obtain ⟨j, k, -, -, hk, hkw⟩ := exists_firstOccurrence hi
        exact ⟨k, hk, BEq.trans hsame (BEq.symm hkw)⟩
    rw [distinct, distinctOnto_concat, ← distinct, ih, hcontains, firstOccurrences_concat]

theorem firstOccurrences_of_pairwise (h : values.Pairwise fun a b => (a == b) = false) :
    firstOccurrences values = values := by
  induction values using List.reverseRecOn with
  | nil => rfl
  | append_singleton values v ih =>
    obtain ⟨hfront, -, hlast⟩ := List.pairwise_append.mp h
    have hnew : values.contains v = false := by
      rw [Bool.eq_false_iff, ne_eq, List.contains_iff_exists_mem_beq]
      rintro ⟨w, hw, hsame⟩
      have hdiffers := hlast w hw v List.mem_cons_self
      rw [BEq.symm hsame] at hdiffers
      cases hdiffers
    rw [firstOccurrences_concat, hnew, ih hfront]
    rfl

end Value

namespace TypeDescriptor

variable {values : List Value}

theorem buildEnumeration_of_defined (owner : String) (field : Value) (kind : Option ScalarKind)
    (h : ∀ v ∈ values, v.Defined) :
    buildEnumeration owner field values kind = .ok (enumeration owner field values kind) := by
  have hquiet : Value.distinctSignals [] values = false :=
    Value.distinctSignals_of_defined (by simp) h
  rw [buildEnumeration, hquiet]
  rfl

theorem enumeration_firstOccurrences (owner : String) (field : Value) (kind : Option ScalarKind)
    (values : List Value) :
    enumeration owner field (Value.firstOccurrences values) kind =
      enumeration owner field values kind := by
  have hagain : Value.distinct (Value.firstOccurrences values) = Value.distinct values := by
    rw [Value.distinct_eq_firstOccurrences, Value.distinct_eq_firstOccurrences,
      Value.firstOccurrences_of_pairwise (Value.pairwise_firstOccurrences values)]
  rw [enumeration, hagain, ← enumeration]

/-- The enumeration of values without undefined numbers lists the first occurrences in their order:
no two of them are the same, each value is the same as one that is kept and stands no later, and
what is kept stands before all that are the same. What is kept is kept again. Numbers are the same
if they have the same value, whatever their kinds. -/
theorem buildEnumeration_keeps_first (owner : String) (field : Value) (kind : Option ScalarKind)
    (h : ∀ v ∈ values, v.Defined) :
    ∃ t, buildEnumeration owner field values kind = .ok t ∧
      t.values = Value.firstOccurrences values ∧
      (t.values.Pairwise fun a b => (a == b) = false) ∧
      (∀ (i : Nat) v, values[i]? = some v →
        ∃ j k, j ≤ i ∧ values[j]? = some k ∧ k ∈ t.values ∧ (k == v) = true) ∧
      (∀ k ∈ t.values, ∃ i : Nat, values[i]? = some k ∧
        ∀ (j : Nat) v, values[j]? = some v → (v == k) = true → i ≤ j) ∧
      buildEnumeration owner field t.values kind = .ok t ∧
      ∀ (v w : Value) p q, v.ratio? = some p → w.ratio? = some q → ((v == w) = true ↔ p = q) := by
  have hvalues : (enumeration owner field values kind).values = Value.firstOccurrences values :=
    Value.distinct_eq_firstOccurrences values
  have hkept : ∀ k ∈ Value.firstOccurrences values, k.Defined := by
    intro k hk
    obtain ⟨i, hi, -⟩ := Value.mem_firstOccurrences_iff.mp hk
    exact h k (List.mem_of_getElem? hi)
  refine ⟨_, buildEnumeration_of_defined owner field kind h, hvalues, ?_⟩
  rw [hvalues]
  refine ⟨Value.pairwise_firstOccurrences values, ?_, ?_, ?_, ?_⟩
  · exact fun i v hi => Value.exists_firstOccurrence hi
  · exact fun k hk => Value.earliest_of_mem_firstOccurrences hk
  · rw [buildEnumeration_of_defined owner field kind hkept, enumeration_firstOccurrences]
  · exact fun v w p q hv hw => Value.beq_iff_ratio_eq hv hw

/-- The number one in four kinds and as a text, and pairs of lists, tuples and mappings. -/
def assortedValues : List Value :=
  [.int 1, .float (.finite false 4503599627370496 (-52)), .bool true,
   .decimal (.finite false 10 (-1)), .text "1", .null, .list [.int 1, .text "a"],
   .tuple [.int 1, .text "a"], .list [.bool true, .text "a"],
   .mapping [(.text "size", .float (.finite false 5629499534213120 (-51))), (.text "unit", .null)],
   .mapping [(.text "unit", .null), (.text "size", .decimal (.finite false 250 (-2)))]]

theorem assortedValues_defined : ∀ v ∈ assortedValues, v.Defined := by
  have hleaf : ∀ v : Value, v.parts = [] → ¬ v.IsUndefined → v.Defined := by
    intro v hparts here
    exact .of_parts here (by simp [hparts])
  intro v hv
  simp only [assortedValues, List.mem_cons, List.not_mem_nil, or_false] at hv
  rcases hv with rfl | rfl | rfl | rfl | rfl | rfl | rfl | rfl | rfl | rfl | rfl
  all_goals
    refine .of_parts (by simp [Value.IsUndefined]) fun w hw => ?_
    simp only [Value.parts, List.flatMap_cons, List.flatMap_nil, List.append_nil, List.cons_append,
      List.nil_append, List.mem_cons, List.not_mem_nil, or_false] at hw
  all_goals
    rcases hw with rfl | rfl | rfl | rfl <;> exact hleaf _ rfl (by simp [Value.IsUndefined])

/-- Of each group the value that stands first is kept. -/
theorem buildEnumeration_keeps_first_assorted :
    (∀ v ∈ assortedValues, v.Defined) ∧
      ∃ t, buildEnumeration "Order" (.text "size") assortedValues none = .ok t ∧
        t.values = [.int 1, .text "1", .null, .list [.int 1, .text "a"], .tuple [.int 1, .text "a"],
          .mapping [(.text "size", .float (.finite false 5629499534213120 (-51))),
            (.text "unit", .null)]] ∧
        buildEnumeration "Order" (.text "size") t.values none = .ok t := by
  obtain ⟨t, hbuilt, hvalues, -, -, -, hagain, -⟩ :=
    buildEnumeration_keeps_first "Order" (.text "size") none assortedValues_defined
  exact ⟨assortedValues_defined, t, hbuilt, hvalues.trans rfl, hagain⟩

end TypeDescriptor

end ModelSchema
