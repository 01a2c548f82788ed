import ModelSchema.Proofs.Execution
import ModelSchema.Proofs.Json.CanonicalOrder
import ModelSchema.Proofs.Value.Contents

/-!
# Values that have a text

In either style a value that has a text is no knot, its keys have texts, and so do the values that
it leads to. Main statement: it holds no integer that is too long to be written.
-/

namespace ModelSchema.Json

variable {style : Style} {v key : Value} {cs : List Char}

theorem exists_of_mapM {α β ε : Type} {f : α → Except ε β} {xs : List α} {ys : List β}
    (h : xs.mapM f = .ok ys) : ∀ x ∈ xs, ∃ y, f x = .ok y := by
  induction xs generalizing ys with
  | nil => simp
  | cons x xs ih =>
    rw [List.mapM_cons] at h
    obtain ⟨y, hy, h⟩ := exists_of_bind_ok h
    obtain ⟨rest, hrest, -⟩ := exists_of_bind_ok h
    exact List.forall_mem_cons.mpr ⟨⟨y, hy⟩, ih hrest⟩

theorem exists_ordered_of_objectText {rows : List (Value × Except WriteError (List Char))}
    (h : objectText style rows = .ok cs) :
    ∃ ordered properties, List.Perm ordered rows ∧
      ordered.mapM (fun row => row.2) = .ok properties := by
  unfold objectText at h
  split at h
  · obtain ⟨ordered, hsorted, h⟩ := exists_of_bind_ok h
    obtain ⟨properties, hproperties, -⟩ := exists_of_bind_ok h
    exact ⟨ordered, properties, sortEntries_perm hsorted, hproperties⟩
  · obtain ⟨ordered, hsame, h⟩ := exists_of_bind_ok h
    obtain ⟨properties, hproperties, -⟩ := exists_of_bind_ok h
    cases hsame
    exact ⟨rows, properties, .refl _, hproperties⟩

theorem exists_row_of_objectText {rows : List (Value × Except WriteError (List Char))}
    (h : objectText style rows = .ok cs) : ∀ row ∈ rows, ∃ text, row.2 = .ok text := by
  obtain ⟨ordered, properties, hperm, hproperties⟩ := exists_ordered_of_objectText h
  intro row hrow
  exact exists_of_mapM hproperties row (hperm.mem_iff.mpr hrow)

theorem exists_of_entryText {entry : Value × Value} {text : List Char}
    (h : entryText style entry = .ok text) :
    (∃ name, keyText entry.1 = .ok name) ∧ ∃ cs, write style entry.2 = .ok cs := by
  rw [entryText] at h
  obtain ⟨name, hname, h⟩ := exists_of_bind_ok h
  obtain ⟨cs, hwrite, -⟩ := exists_of_bind_ok h
  exact ⟨⟨name, hname⟩, ⟨cs, hwrite⟩⟩

theorem exists_of_writeItems {items : List Value} {texts : List (List Char)}
    (h : writeItems style items = .ok texts) : ∀ v ∈ items, ∃ cs, write style v = .ok cs := by
  induction items generalizing texts with
  | nil => simp
  | cons v rest ih =>
    rw [writeItems] at h
    obtain ⟨cs, hwrite, h⟩ := exists_of_bind_ok h
    obtain ⟨others, hrest, -⟩ := exists_of_map_ok h
    exact List.forall_mem_cons.mpr ⟨⟨cs, hwrite⟩, ih hrest⟩

/-- The row under which a knot holds itself has no text. -/
theorem not_isKnot_of_write (h : write style v = .ok cs) : ¬ v.IsKnot := by
  rintro ⟨before, key, after, form, rfl⟩
  rw [write] at h
  have hrow := exists_row_of_objectText h (key, (keyText key).bind fun _ => .error .circular)
    (by simp)
  obtain ⟨text, htext⟩ := hrow
  obtain ⟨name, -, hcircular⟩ := exists_of_bind_ok htext
  cases hcircular

theorem exists_of_write_mapping {entries : List (Value × Value)}
    (h : write style (.mapping entries) = .ok cs) : ∀ entry ∈ entries,
    (∃ name, keyText entry.1 = .ok name) ∧ ∃ cs, write style entry.2 = .ok cs := by
  intro entry hentry
  rw [write_mapping] at h
  obtain ⟨text, htext⟩ := exists_row_of_objectText h (entry.1, entryText style entry)
    (List.mem_map_of_mem hentry)
  exact exists_of_entryText htext

theorem exists_of_write (h : write style v = .ok cs) :
    (∀ key ∈ v.keys, ∃ name, keyText key = .ok name) ∧
      ∀ w ∈ v.contents, ∃ cs, write style w = .ok cs := by
  have hknot := not_isKnot_of_write h
  cases v with
  | list items | tuple items =>
    rw [write] at h
    obtain ⟨texts, hitems, -⟩ := exists_of_map_ok h
    exact ⟨by simp [Value.keys, Value.entries?], exists_of_writeItems hitems⟩
  | mapping entries =>
    have hentries := exists_of_write_mapping h
    constructor
    · intro key hkey
      obtain ⟨entry, hentry, rfl⟩ := List.mem_map.mp hkey
      exact (hentries entry hentry).1
    · intro w hw
      obtain ⟨entry, hentry, rfl⟩ := List.mem_map.mp hw
      exact (hentries entry hentry).2
  | knot before key after form => exact absurd ⟨before, key, after, form, rfl⟩ hknot
  | _ => simp [Value.keys, Value.contents, Value.entries?]

theorem write_int {n : Int} (hn : Number.isShort n = true) :
    write style (.int n) = .ok (Number.integerDigits n) := by
  rw [write]
  exact writeInteger_eq_ok_iff.mpr ⟨hn, rfl⟩

theorem isShowable_of_keyText {name : String} (h : keyText key = .ok name) :
    key.isShowable = true := by
  cases key with
  | null | bool _ | float _ | text _ => rfl
  | int n =>
    obtain ⟨digits, hdigits, -⟩ := exists_of_map_ok h
    exact (writeInteger_eq_ok_iff.mp hdigits).1
  | _ => cases h

theorem isShowable_of_write (h : write style v = .ok cs) : v.isShowable = true := by
  induction v using Value.part_induction generalizing cs with
  | step v ih =>
    have hknot := not_isKnot_of_write h
    obtain ⟨hkeys, hcontents⟩ := exists_of_write h
    have hshown : ∀ w ∈ v.contents, w.isShowable = true := by
      intro w hw
      obtain ⟨cs, hcs⟩ := hcontents w hw
      exact ih w (Value.mem_parts_of_mem_contents hknot hw) hcs
    cases v with
    | null | bool _ | float _ | text _ | type _ | date _ | dateTime _ | decimal _ | bytes _ => rfl
    | enumerator _ _ => rfl
    | int n => exact (writeInteger_eq_ok_iff.mp h).1
    | list items | tuple items => exact Value.itemsShowable_iff.mpr hshown
    | mapping entries =>
      refine Value.entriesShowable_iff.mpr fun entry hentry => ⟨?_, ?_⟩
      · obtain ⟨name, hname⟩ := hkeys entry.1 (List.mem_map_of_mem hentry)
        exact isShowable_of_keyText hname
      · exact hshown entry.2 (List.mem_map_of_mem hentry)
    | knot before key after form => exact absurd ⟨before, key, after, form, rfl⟩ hknot
    -- what JSON does not know is shown or refused
    | object _ | record _ _ | set _ =>
      simp only [write] at h
      split at h
      · split at h
        · assumption
        · cases h
      · cases h

end ModelSchema.Json
