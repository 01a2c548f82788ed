import ModelSchema.Json.Writer
import ModelSchema.Proofs.Value.Keys

/-!
# The order of entries in canonical texts

The canonical text of a mapping with texts as keys depends on its entries, not on their order. A
mapping whose first key is no text while the second is one has none.
-/

namespace ModelSchema.Json

variable {α : Type} {entries others : List (Value × α)}

/-- The text of a key, empty if it is none. -/
def keyOf (entry : Value × α) : String := (text? entry.1).getD ""

theorem TextKeyed.eq_of_keyOf_eq (h : TextKeyed entries) {x y : Value × α} (hx : x ∈ entries)
    (hy : y ∈ entries) (hk : keyOf x = keyOf y) : x = y := by
  obtain ⟨n, hn⟩ := h.text x hx
  obtain ⟨k, hk'⟩ := h.text y hy
  have hsame : x.1 = y.1 := by
    simp only [keyOf, text?, hn, hk', Option.getD_some] at hk
    rw [hn, hk', hk]
  exact h.eq_of_fst_eq hx hy hsame

theorem sortEntries_of_textKeyed (h : TextKeyed entries) (hl : ¬ entries.length ≤ 1) :
    sortEntries entries = .ok (entries.mergeSort fun a b => !(keyOf b < keyOf a : Bool)) := by
  have hall : (entries.all fun entry => (text? entry.1).isSome) = true := by
    apply List.all_eq_true.mpr
    intro entry he
    obtain ⟨n, hn⟩ := h.text entry he
    simp [hn, text?]
  rw [sortEntries, if_neg hl, if_pos hall]
  rfl

theorem exists_sortEntries (h : TextKeyed entries) :
    ∃ sorted, sortEntries entries = .ok sorted := by
  by_cases hl : entries.length ≤ 1
  · exact ⟨entries, by rw [sortEntries, if_pos hl]⟩
  · exact ⟨_, sortEntries_of_textKeyed h hl⟩

theorem sortEntries_eq_of_perm (h : TextKeyed entries) (hp : entries.Perm others) :
    sortEntries entries = sortEntries others := by
  by_cases hl : entries.length ≤ 1
  · have heq : entries = others := by
      match entries, hl with
      | [], _ => exact (List.nil_perm.mp hp).symm
      | [e], _ => exact (List.singleton_perm.mp hp)
    rw [heq]
  · have hl' : ¬ others.length ≤ 1 := by rwa [← hp.length_eq]
    rw [sortEntries_of_textKeyed h hl, sortEntries_of_textKeyed (h.perm hp) hl']
    congr 1
    have htrans : ∀ a b c : Value × α, (!(keyOf b < keyOf a : Bool)) = true →
        (!(keyOf c < keyOf b : Bool)) = true → (!(keyOf c < keyOf a : Bool)) = true := by
      intro a b c hab hbc
      simp only [Bool.not_eq_true', decide_eq_false_iff_not, String.not_lt] at hab hbc ⊢
      exact String.le_trans hab hbc
    have htotal : ∀ a b : Value × α,
        (!(keyOf b < keyOf a : Bool) || !(keyOf a < keyOf b : Bool)) = true := by
      intro a b
      simp only [Bool.or_eq_true, Bool.not_eq_true', decide_eq_false_iff_not, String.not_lt]
      exact String.le_total _ _
    refine List.Perm.eq_of_pairwise (fun a b ha hb hab hba => ?_)
      (List.pairwise_mergeSort htrans htotal entries)
      (List.pairwise_mergeSort htrans htotal others) ?_
    · simp only [Bool.not_eq_true', decide_eq_false_iff_not, String.not_lt] at hab hba
      exact TextKeyed.eq_of_keyOf_eq h (List.mem_mergeSort.mp ha)
        (hp.mem_iff.mpr (List.mem_mergeSort.mp hb))
        (String.le_antisymm hab hba)
    · exact (List.mergeSort_perm _ _).trans (hp.trans (List.mergeSort_perm _ _).symm)

/-- A text cannot be compared with another key. -/
theorem sortEntries_of_mixed {a b : Value × α} {rest : List (Value × α)} {n : String}
    (ha : text? a.1 = none) (hb : b.1 = .text n) :
    sortEntries (a :: b :: rest) = .error .unorderedKeys := by
  have hbefore : keyBefore b.1 a.1 = .error .unorderedKeys := by
    rw [hb]
    obtain ⟨key, _⟩ := a
    cases key <;> simp_all [text?, keyBefore, numberBefore, number?]
  rw [sortEntries, if_neg (by simp), if_neg (by simp [ha]), Sorting.sort, Sorting.nextRun, hbefore]

/-- The property of an entry, or the reason why it has none. -/
def entryText (style : Style) (entry : Value × Value) : Except WriteError (List Char) :=
  (keyText entry.1).bind fun _ => (write style entry.2).bind (propertyText style entry.1)

theorem entryText_eq {style : Style} {key v : Value} {name : String} {cs : List Char}
    (hkey : keyText key = .ok name) (hv : write style v = .ok cs) :
    entryText style (key, v) = .ok (stringText name ++ (style.keySeparator ++ cs)) := by
  rw [entryText, hkey, hv]
  simp [propertyText, hkey, Except.bind, Except.map]

theorem writeEntries_eq_map (style : Style) (entries : List (Value × Value)) :
    writeEntries style entries = entries.map fun entry => (entry.1, entryText style entry) := by
  induction entries with
  | nil => rfl
  | cons entry rest ih => rw [writeEntries, ih]; rfl

theorem write_mapping (style : Style) (entries : List (Value × Value)) :
    write style (.mapping entries) =
      objectText style (entries.map fun entry => (entry.1, entryText style entry)) := by
  rw [write, writeEntries_eq_map]

theorem objectText_canonical (rows : List (Value × Except WriteError (List Char))) :
    objectText .canonical rows =
      (do
        let ordered ← sortEntries rows
        let properties ← ordered.mapM (·.2)
        pure ('\x7b' :: separated Style.canonical.itemSeparator properties ++ ['\x7d'])) := rfl

theorem objectText_eq_of_perm {rows rows' : List (Value × Except WriteError (List Char))}
    (h : TextKeyed rows) (hp : rows.Perm rows') :
    objectText .canonical rows = objectText .canonical rows' := by
  rw [objectText_canonical, objectText_canonical, sortEntries_eq_of_perm h hp]

theorem objectText_of_pairwise {rows : List (Value × Except WriteError (List Char))}
    (h : TextKeyed rows) (hsorted : rows.Pairwise fun a b => (!(keyOf b < keyOf a : Bool)) = true) :
    objectText .canonical rows =
      (do
        let properties ← rows.mapM (·.2)
        pure ('\x7b' :: separated Style.canonical.itemSeparator properties ++ ['\x7d'])) := by
  have hkept : sortEntries rows = .ok rows := by
    by_cases hl : rows.length ≤ 1
    · rw [sortEntries, if_pos hl]
    · rw [sortEntries_of_textKeyed h hl, List.mergeSort_of_pairwise hsorted]
  rw [objectText_canonical, hkept]
  rfl

/-- Each row of a mapping has its counterpart, with the same key and text, in another. -/
def Matches (xs ys : List (Value × Value)) : Prop :=
  ∀ x ∈ xs, ∃ y ∈ ys, y.1 = x.1 ∧ write .canonical y.2 = write .canonical x.2

theorem Matches.map {xs ys : List (Value × Value)} (h : Matches xs ys)
    {row : Value × Except WriteError (List Char)}
    (hr : row ∈ xs.map fun entry => (entry.1, entryText .canonical entry)) :
    row ∈ ys.map fun entry => (entry.1, entryText .canonical entry) := by
  obtain ⟨x, hx, rfl⟩ := List.mem_map.mp hr
  obtain ⟨y, hy, hkey, htext⟩ := h x hx
  refine List.mem_map.mpr ⟨y, hy, ?_⟩
  rw [entryText, entryText, hkey, htext]

/-- Mappings with counterparts for all their rows have the same canonical text. -/
theorem write_mapping_eq {xs ys : List (Value × Value)} (hx : TextKeyed xs) (hy : TextKeyed ys)
    (h : Matches xs ys) (h' : Matches ys xs) :
    write .canonical (.mapping xs) = write .canonical (.mapping ys) := by
  rw [write_mapping, write_mapping]
  have hkeyed := hx.map (entryText .canonical)
  exact objectText_eq_of_perm hkeyed
    (hkeyed.perm_of_mem_iff (hy.map (entryText .canonical)) fun row => ⟨h.map, h'.map⟩)

theorem write_mapping_of_mixed {a b : Value × Value} {rest : List (Value × Value)} {n : String}
    (ha : text? a.1 = none) (hb : b.1 = .text n) :
    write .canonical (.mapping (a :: b :: rest)) = .error .unorderedKeys := by
  rw [write_mapping, List.map_cons, List.map_cons, objectText_canonical,
    sortEntries_of_mixed (a := (a.1, entryText .canonical a))
      (b := (b.1, entryText .canonical b)) ha hb]
  rfl

end ModelSchema.Json
