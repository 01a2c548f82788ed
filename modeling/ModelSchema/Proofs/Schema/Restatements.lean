import ModelSchema.Proofs.Schema.Fingerprints
import ModelSchema.Proofs.Schema.Freezing

/-!
# Registries that restate each other

The order of types, of the fields of a type and of the arguments of a field is no part of a schema,
and neither is how fields are resolved and what is marked as consumed. A registry restates another
if they differ in these alone, at every level. Main statement: such registries have the same
fingerprint, whether they are frozen or not.
-/

namespace ModelSchema

variable {α β : Type}

/-- The rows of a table in another order, each with a related value under its key. -/
def Reordered (related : α → β → Prop) (rows : List (Value × α)) (others : List (Value × β)) :
    Prop :=
  ∃ between, List.Forall₂ (fun row other => row.1 = other.1 ∧ related row.2 other.2) rows between ∧
    between.Perm others

namespace Reordered

variable {related : α → β → Prop} {rows : List (Value × α)} {others : List (Value × β)}

theorem exists_row (h : Reordered related rows others) {other : Value × β} (ho : other ∈ others) :
    ∃ row ∈ rows, row.1 = other.1 ∧ related row.2 other.2 := by
  obtain ⟨between, hall, hperm⟩ := h
  obtain ⟨i, hi, hother⟩ := List.mem_iff_getElem.mp (hperm.mem_iff.mpr ho)
  have hi' : i < rows.length := hall.length_eq ▸ hi
  refine ⟨rows[i], List.getElem_mem hi', ?_⟩
  rw [← hother]
  exact hall.get hi' hi

theorem keys_perm (h : Reordered related rows others) :
    (rows.map Prod.fst).Perm (others.map Prod.fst) := by
  obtain ⟨between, hall, hperm⟩ := h
  have hkeys : rows.map Prod.fst = between.map Prod.fst := by
    induction hall generalizing others with
    | nil => rfl
    | cons hrow _ ih => rw [List.map_cons, List.map_cons, hrow.1, ih (.refl _)]
  rw [hkeys]
  exact hperm.map Prod.fst

theorem textKeyed (h : Reordered related rows others) (hk : TextKeyed rows) :
    TextKeyed others := by
  have hkeyed : TextKeyed (rows.map fun row => (row.1, ())) := hk.map fun _ => ()
  have hperm : (rows.map fun row => (row.1, ())).Perm (others.map fun row => (row.1, ())) := by
    have hpaired := h.keys_perm.map fun key => (key, ())
    rwa [List.map_map, List.map_map] at hpaired
  obtain ⟨htext, hdistinct⟩ := hkeyed.perm hperm
  constructor
  · intro row hrow
    exact htext (row.1, ()) (List.mem_map_of_mem (f := fun row => (row.1, ())) hrow)
  · exact List.pairwise_map.mp hdistinct

theorem map {γ δ : Type} {related' : γ → δ → Prop} (h : Reordered related rows others) {f : α → γ}
    {g : β → δ} (hfg : ∀ row ∈ rows, ∀ b, related row.2 b → related' (f row.2) (g b)) :
    Reordered related' (rows.map fun row => (row.1, f row.2))
      (others.map fun other => (other.1, g other.2)) := by
  obtain ⟨between, hall, hperm⟩ := h
  refine ⟨between.map fun other => (other.1, g other.2), ?_, hperm.map _⟩
  rw [List.forall₂_map_left_iff, List.forall₂_map_right_iff]
  induction hall generalizing others with
  | nil => exact .nil
  | @cons row other rows between hrow _ ih =>
    rw [List.forall_mem_cons] at hfg
    exact .cons ⟨hrow.1, hfg.1 other.2 hrow.2⟩ (ih hfg.2 (.refl _))

end Reordered

theorem Json.Writable.alike_self {v : Value} (h : Json.Writable v) : v.Alike v := by
  induction h with
  | null | bool _ | int _ | text _ => constructor
  | list _ ih => exact .of_forall₂ (List.forall₂_same.mpr ih)
  | @mapping entries hk _ ih =>
    refine .mapping (fun key => Iff.rfl) fun x hx y hy hxy => ?_
    rw [hk.eq_of_fst_eq hx hy hxy]
    exact ih y hy

theorem Value.Alike.of_reordered {xs ys : List (Value × Value)} (hk : TextKeyed xs)
    (h : Reordered Value.Alike xs ys) : Value.Alike (.mapping xs) (.mapping ys) := by
  constructor
  · intro key
    exact h.keys_perm.mem_iff
  · intro x hx y hy hxy
    obtain ⟨row, hrow, hkey, halike⟩ := h.exists_row hy
    rw [hk.eq_of_fst_eq hx hrow (hxy.trans hkey.symm)]
    exact halike

/-- A field with its arguments in another order, however it is resolved and marked. -/
def Field.Restates (f g : Field) : Prop :=
  ∃ arguments resolver generated, f.arguments.Perm arguments ∧
    g = { f with arguments, resolver, generated }

/-- A type with its fields in another order and each of them restated, however it is marked. -/
def TypeDescriptor.Restates (t u : TypeDescriptor) : Prop :=
  ∃ fields generated, Reordered Field.Restates t.fields fields ∧ u = { t with fields, generated }

/-- A registry with its types in another order and each of them restated. -/
def Registry.Restates (r r' : Registry) : Prop :=
  Reordered TypeDescriptor.Restates r.types r'.types

namespace Field

variable {f g : Field}

theorem Restates.exportable (h : f.Restates g) (hf : f.Exportable) : g.Exportable := by
  obtain ⟨arguments, resolver, generated, hperm, rfl⟩ := h
  refine ⟨hf.description, hf.arguments.perm hperm, ?_⟩
  intro row hrow
  exact hf.remarks row (hperm.mem_iff.mpr hrow)

theorem Restates.exported_alike (h : f.Restates g) (hf : f.Exportable) :
    f.exported.Alike g.exported := by
  obtain ⟨arguments, resolver, generated, hperm, rfl⟩ := h
  have hsame : Reordered Eq f.arguments arguments :=
    ⟨f.arguments, List.forall₂_same.mpr fun _ _ => ⟨rfl, rfl⟩, hperm⟩
  have harguments : Value.Alike
      (.mapping (f.arguments.map fun row => (row.1, row.2.exported)))
      (.mapping (arguments.map fun row => (row.1, row.2.exported))) := by
    refine .of_reordered (hf.arguments.map fun row => row.2.exported) (hsame.map ?_)
    rintro row hrow _ rfl
    exact (Argument.writable (hf.remarks row hrow)).alike_self
  refine .of_reordered ⟨by simp, by simp [Table.Distinct]⟩ ⟨_, ?_, .refl _⟩
  simp [harguments, hf.description.alike_self, Value.Alike.bool, (writable_ofText? _).alike_self]

end Field

namespace TypeDescriptor

variable {t u : TypeDescriptor}

theorem Restates.exportable (h : t.Restates u) (ht : t.Exportable) : u.Exportable := by
  obtain ⟨fields, generated, hfields, rfl⟩ := h
  refine ⟨ht.name, ht.description, ht.values, hfields.textKeyed ht.keys, ?_⟩
  intro row hrow
  obtain ⟨old, hold, -, hrestates⟩ := hfields.exists_row hrow
  exact hrestates.exportable (ht.fields old hold)

theorem Restates.exported_alike (h : t.Restates u) (ht : t.Exportable) :
    t.exported.Alike u.exported := by
  have hself : t.exported.Alike t.exported := ht.writable.alike_self
  obtain ⟨fields, generated, hfields, rfl⟩ := h
  unfold exported at hself ⊢
  dsimp only at hself ⊢
  cases hcat : t.category with
  | object =>
    have hrows : Value.Alike (.mapping (t.fields.map fun row => (row.1, row.2.exported)))
        (.mapping (fields.map fun row => (row.1, row.2.exported))) := by
      refine .of_reordered (ht.keys.map fun row => row.2.exported) (hfields.map ?_)
      intro row hrow g hg
      exact hg.exported_alike (ht.fields row hrow)
    obtain ⟨n, hn⟩ := ht.name
    refine .of_reordered ⟨by simp, by simp [Table.Distinct]⟩ ⟨_, ?_, .refl _⟩
    simp [hn, hrows, ht.description.alike_self, Value.Alike.bool, Value.Alike.text]
  | enum =>
    rw [hcat] at hself
    exact hself
  | union =>
    rw [hcat] at hself
    exact hself

end TypeDescriptor

namespace Registry

open Procedure

variable {r r' : Registry}

theorem Restates.exportable (h : r.Restates r') (hr : r.Exportable) : r'.Exportable := by
  refine ⟨Reordered.textKeyed h hr.keys, ?_⟩
  intro row hrow
  obtain ⟨old, hold, -, hrestates⟩ := Reordered.exists_row h hrow
  exact hrestates.exportable (hr.types old hold)

theorem Restates.exported_alike (h : r.Restates r') (hr : r.Exportable) :
    r.exported.Alike r'.exported := by
  refine .of_reordered (hr.keys.map fun row => row.2.exported) (Reordered.map h ?_)
  intro row hrow u hu
  exact hu.exported_alike (hr.types row hrow)

theorem Restates.computeFingerprint_eq (h : r.Restates r') (hr : r.Exportable) :
    r.computeFingerprint = r'.computeFingerprint := by
  have htext :=
    Json.write_eq_of_alike hr.writable (h.exportable hr).writable (h.exported_alike hr)
  rw [computeFingerprint, computeFingerprint, canonicalText, canonicalText, Json.canonicalText,
    Json.canonicalText, htext]

theorem Sealed.fingerprint_eq (h : r.Sealed) : r.fingerprint = r.computeFingerprint := by
  unfold fingerprint
  cases htext : r.fixedFingerprint with
  | some text => exact (h.fresh text htext).symm
  | none => rfl

/-- Freezing gives the fingerprint of an open registry, or fails where there is none. Further
operations leave the fingerprint. -/
theorem freeze_keeps_fingerprint (hz : r.frozen = false) :
    ∃ s, freeze.Ends r r.computeFingerprint s ∧
      ∀ text, r.computeFingerprint = .ok text →
        ∀ later, (s.after later).fingerprint = .ok text := by
  cases hcomputed : r.computeFingerprint with
  | error e => exact ⟨r, freeze_of_unwritable hz hcomputed, by simp⟩
  | ok text =>
    refine ⟨r.sealWith text, freeze_ends_ok.mpr ⟨hz, hcomputed, rfl⟩, ?_⟩
    rintro text ⟨⟩ later
    have hstart : FrozenAs text r.exported (r.sealWith text) := ⟨rfl, rfl, rfl⟩
    have hlast : FrozenAs text r.exported ((r.sealWith text).after later) :=
      after_induction hstart FrozenAs.step later
    unfold fingerprint
    rw [hlast.fixed]

theorem addAll_of_textKeyed {rows : List (Value × TypeDescriptor)} (hz : r.frozen = false)
    (hk : TextKeyed (r.types ++ rows)) (hn : ∀ row ∈ rows, row.2.name = row.1) :
    r.AcceptsAll (rows.map (·.2)) ∧
      r.addAll (rows.map (·.2)) = { r with types := r.types ++ rows } := by
  induction rows generalizing r with
  | nil => exact ⟨trivial, by simp [addAll]⟩
  | cons row rows ih =>
    obtain ⟨key, t⟩ := row
    rw [List.forall_mem_cons] at hn
    obtain ⟨hkey, hn⟩ := hn
    obtain rfl : t.name = key := hkey
    have hhash : t.name.isHashable = true := by
      obtain ⟨n, hname⟩ := hk.text (t.name, t) (by simp)
      rw [show t.name = .text n from hname]
      rfl
    have hfree : r.find? t.name = none := by
      refine Table.find?_eq_none_iff.mpr fun old hold => ?_
      exact (List.pairwise_append.mp hk.distinct).2.2 old hold _ List.mem_cons_self
    have hadd : r.add t = { r with types := r.types ++ [(t.name, t)] } := add_of_free hfree
    have hrest := @ih (r.add t) (by rw [frozen_add, hz])
      (by simpa [hadd] using hk) hn
    constructor
    · exact ⟨accepts_of_free hz hhash hfree, hrest.1⟩
    · change (r.add t).addAll (rows.map (·.2)) = _
      rw [hrest.2, hadd]
      simp

/-- A registry that is reached by any operations and another that restates it have the same
fingerprint, which is that of their exports, and both give it when they are frozen and keep it from
then on; if an integer in them is too long, both fail alike. Registering the types of the first in
any order, each of them restated, leads to such a registry. -/
theorem fingerprint_restated (ops : List Operation) (hr : (empty.after ops).Exportable) :
    let r := empty.after ops
    ∃ outcome : Except Failure String,
      (r.Legible → ∃ text, outcome = .ok text) ∧
      (∀ ops', r.Restates (empty.after ops') → ∀ s ∈ [r, empty.after ops'],
        s.fingerprint = outcome ∧ s.computeFingerprint = outcome ∧
          (s.frozen = false → ∃ frozen, freeze.Ends s outcome frozen ∧
            ∀ text, outcome = .ok text → ∀ later, (frozen.after later).fingerprint = .ok text)) ∧
      ∀ rows, Reordered TypeDescriptor.Restates r.types rows →
        (∀ row ∈ rows, row.2.name = row.1) ∧
          r.Restates (empty.after (rows.map fun row => .register row.2)) := by
  intro r
  refine ⟨r.computeFingerprint, hr.exists_fingerprint, ?_, ?_⟩
  · intro ops' h s hs
    have hcomputed : s.computeFingerprint = r.computeFingerprint := by
      simp only [List.mem_cons, List.not_mem_nil, or_false] at hs
      rcases hs with rfl | rfl
      · rfl
      · exact (h.computeFingerprint_eq hr).symm
    have hsealed : s.Sealed := by
      simp only [List.mem_cons, List.not_mem_nil, or_false] at hs
      rcases hs with rfl | rfl
      · exact sealed_after ops
      · exact sealed_after ops'
    rw [← hcomputed]
    exact ⟨hsealed.fingerprint_eq, rfl, freeze_keeps_fingerprint⟩
  · intro rows h
    have hnamed : ∀ row ∈ rows, row.2.name = row.1 := by
      intro row hrow
      obtain ⟨old, hold, hkey, fields, generated, -, hsame⟩ := h.exists_row hrow
      rw [hsame, ← hkey]
      exact (named_after ops).name old hold
    refine ⟨hnamed, ?_⟩
    obtain ⟨haccepts, hadd⟩ := addAll_of_textKeyed (r := empty) rfl (h.textKeyed hr.keys) hnamed
    have hafter := after_registers haccepts
    rw [List.map_map] at hafter
    unfold Restates
    rw [show empty.after (rows.map fun row => .register row.2) = _ from hafter, hadd]
    exact h

/-- A circle whose area is given in a unit and to a number of digits. -/
def circleType : TypeDescriptor :=
  { name := .text "Circle"
    category := .object
    fields :=
      [(.text "area",
          { name := .text "area"
            arguments := [(.text "unit", { typeName := "String" }),
              (.text "digits", { typeName := "Int" })]
            resolver := some (.property (.text "area")) }),
       (.text "name", { name := .text "name" })] }

/-- The same circle with its fields and arguments in another order. -/
def circleRestated : TypeDescriptor :=
  { circleType with
    fields :=
      [(.text "name", { name := .text "name", generated := true }),
       (.text "area",
          { name := .text "area"
            arguments := [(.text "digits", { typeName := "Int" }),
              (.text "unit", { typeName := "String" })] })] }

theorem circleType_restated : circleType.Restates circleRestated := by
  refine ⟨circleRestated.fields, false, ?_, rfl⟩
  refine ⟨circleRestated.fields.reverse, ?_, List.reverse_perm _⟩
  refine .cons ⟨rfl, ?_⟩ (.cons ⟨rfl, ?_⟩ .nil)
  · exact ⟨_, none, false, .swap _ _ _, rfl⟩
  · exact ⟨[], none, true, .nil, rfl⟩

theorem circleType_exportable : circleType.Exportable := by
  refine ⟨⟨"Circle", rfl⟩, .null, by simp [circleType], ⟨by simp [circleType], ?_⟩, ?_⟩
  · simp [Table.Distinct, circleType]
  · intro row hrow
    simp only [circleType, List.mem_cons, List.not_mem_nil, or_false] at hrow
    rcases hrow with rfl | rfl
    · exact ⟨.null, ⟨by simp, by simp [Table.Distinct]⟩, by simp [Json.Writable.null]⟩
    · exact ⟨.null, .nil, by simp⟩

theorem circleType_legible : circleType.Legible := by
  refine ⟨rfl, by simp [circleType], ?_⟩
  simp only [circleType, List.forall_mem_cons]
  exact ⟨⟨rfl, by simp [Value.isShowable]⟩, ⟨rfl, by simp⟩, by simp⟩

/-- A point and a circle have one fingerprint, in either order and however they are marked. -/
theorem fingerprint_restated_shapes :
    let r := empty.after [.register pointType, .register circleType]
    let r' := empty.after [.register circleRestated, .register pointType,
      .markGenerated (.text "Point")]
    r.Exportable ∧ r.Restates r' ∧ r.names = [.text "Point", .text "Circle"] ∧
      r'.names = [.text "Circle", .text "Point"] ∧
      ∃ text, r.fingerprint = .ok text ∧ r'.fingerprint = .ok text := by
  intro r r'
  have hexportable : r.Exportable := by
    have htypes : r.types = [(.text "Point", pointType), (.text "Circle", circleType)] := rfl
    constructor
    · rw [htypes]
      exact ⟨by simp, by simp [Table.Distinct]⟩
    · rw [htypes, List.forall_mem_cons, List.forall_mem_singleton]
      exact ⟨pointType_exportable, circleType_exportable⟩
  have hrestates : r.Restates r' := by
    refine ⟨_, ?_, .swap _ _ _⟩
    refine .cons ⟨rfl, ?_⟩ (.cons ⟨rfl, circleType_restated⟩ .nil)
    exact ⟨[], true, ⟨[], .nil, .nil⟩, rfl⟩
  refine ⟨hexportable, hrestates, rfl, rfl, ?_⟩
  have hlegible : r.Legible := by
    change ∀ row ∈ [(_, _), (_, _)], _
    rw [List.forall_mem_cons, List.forall_mem_singleton]
    exact ⟨pointType_legible, circleType_legible⟩
  obtain ⟨outcome, htext, hall, -⟩ :=
    fingerprint_restated [.register pointType, .register circleType] hexportable
  obtain ⟨text, rfl⟩ := htext hlegible
  obtain ⟨hr, -, -⟩ := hall _ hrestates r (by simp [r])
  obtain ⟨hr', -, -⟩ := hall _ hrestates r' (by simp [r'])
  exact ⟨text, hr, hr'⟩

end Registry

end ModelSchema
