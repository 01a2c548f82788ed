import ModelSchema.Proofs.Value.Sameness
import ModelSchema.Schema.Descriptor

/-!
# Sameness of descriptors

Being the same is an equivalence of arguments, of fields and of types, since it is one of values.
Tables of arguments and of fields are compared without regard to the order of their rows.
-/

namespace ModelSchema

section Rows

variable {α : Type} {same : α → α → Bool} {rows xs ys : List (Value × α)}

theorem sameRows_iff : sameRows same xs ys = true ↔ Covers (relatedRow same) xs ys := by
  simp only [sameRows, Covers, relatedRow, Bool.and_eq_true, List.all_eq_true, List.any_eq_true]

theorem sameRows_refl (h : ∀ a, same a a = true) : sameRows same rows rows = true :=
  sameRows_iff.mpr (Covers.refl fun row _ => by simp [relatedRow, h])

theorem sameRows_euclid (h : ∀ a b c, same a b = true → same a c = true → same b c = true)
    (hx : sameRows same rows xs = true) (hy : sameRows same rows ys = true) :
    sameRows same xs ys = true := by
  refine sameRows_iff.mpr ((sameRows_iff.mp hx).euclid (sameRows_iff.mp hy)
    fun row _ x y hx hy => ?_)
  simp only [relatedRow, Bool.and_eq_true] at hx hy ⊢
  exact ⟨BEq.trans (BEq.symm hx.1) hy.1, h _ _ _ hx.2 hy.2⟩

end Rows

namespace Argument

theorem same_refl (a : Argument) : a.same a = true := by simp [same]

theorem same_euclid (a b c : Argument) (hb : a.same b = true) (hc : a.same c = true) :
    b.same c = true := by
  simp only [same, Bool.and_eq_true, beq_iff_eq] at hb hc ⊢
  exact ⟨hb.1.symm.trans hc.1, BEq.trans (BEq.symm hb.2) hc.2⟩

end Argument

namespace Field

theorem agrees_iff {a b : Field} :
    a.agrees b = true ↔
      (a.name == b.name) = true ∧ a.typeName = b.typeName ∧ a.isList = b.isList ∧
        a.isScalar = b.isScalar ∧ a.scalarKind = b.scalarKind ∧ a.isRelation = b.isRelation ∧
        a.isConnection = b.isConnection ∧ a.relationKind = b.relationKind ∧ a.embed = b.embed ∧
        a.isRequired = b.isRequired ∧ a.isHidden = b.isHidden ∧
        a.nestedTypeName = b.nestedTypeName := by
  simp only [agrees, Bool.and_eq_true, beq_iff_eq, and_assoc]

theorem agrees_refl (a : Field) : a.agrees a = true := by simp [agrees_iff]

theorem agrees_euclid {a b c : Field} (hb : a.agrees b = true) (hc : a.agrees c = true) :
    b.agrees c = true := by
  rw [agrees_iff] at *
  obtain ⟨hn, h⟩ := hb
  obtain ⟨hn', h'⟩ := hc
  refine ⟨BEq.trans (BEq.symm hn) hn', ?_⟩
  simp_all

theorem same_iff {a b : Field} :
    a.same b = true ↔
      a.agrees b = true ∧ (a.description == b.description) = true ∧
        sameRows Argument.same a.arguments b.arguments = true := by
  simp only [same, Bool.and_eq_true, and_assoc]

theorem same_refl (a : Field) : a.same a = true :=
  same_iff.mpr ⟨a.agrees_refl, BEq.rfl, sameRows_refl Argument.same_refl⟩

theorem same_euclid (a b c : Field) (hb : a.same b = true) (hc : a.same c = true) :
    b.same c = true := by
  rw [same_iff] at *
  obtain ⟨ha, hd, hr⟩ := hb
  obtain ⟨ha', hd', hr'⟩ := hc
  exact ⟨agrees_euclid ha ha', BEq.trans (BEq.symm hd) hd',
    sameRows_euclid Argument.same_euclid hr hr'⟩

theorem same_symm {a b : Field} (h : a.same b = true) : b.same a = true :=
  same_euclid a b a h a.same_refl

end Field

namespace TypeDescriptor

theorem same_iff {a b : TypeDescriptor} :
    a.same b = true ↔
      (a.name == b.name) = true ∧ a.category = b.category ∧
        (a.description == b.description) = true ∧ sameRows Field.same a.fields b.fields = true ∧
        Value.sameItems a.values b.values = true ∧ a.scalarKind = b.scalarKind ∧
        a.members = b.members ∧ a.input = b.input := by
  simp only [same, Bool.and_eq_true, beq_iff_eq, and_assoc]

theorem same_refl (a : TypeDescriptor) : a.same a = true :=
  same_iff.mpr
    ⟨BEq.rfl, rfl, BEq.rfl, sameRows_refl Field.same_refl, Value.sameItems_refl
      fun v _ => v.same_refl, rfl, rfl, rfl⟩

theorem same_euclid {a b c : TypeDescriptor} (hb : a.same b = true) (hc : a.same c = true) :
    b.same c = true := by
  rw [same_iff] at *
  obtain ⟨hn, hcat, hd, hf, hv, hk, hm, hi⟩ := hb
  obtain ⟨hn', hcat', hd', hf', hv', hk', hm', hi'⟩ := hc
  exact
    ⟨BEq.trans (BEq.symm hn) hn', hcat.symm.trans hcat', BEq.trans (BEq.symm hd) hd',
      sameRows_euclid Field.same_euclid hf hf', Value.sameItems_euclid hv hv' fun _ _ _ _ =>
        Value.same_euclid,
      hk.symm.trans hk', hm.symm.trans hm', hi.symm.trans hi'⟩

theorem same_symm {a b : TypeDescriptor} (h : a.same b = true) : b.same a = true :=
  same_euclid h a.same_refl

/-- What types that are the same have in common beyond doubt: everything but values, which may be
written differently. -/
theorem same_fields {a b : TypeDescriptor} (h : a.same b = true) {row : Value × Field}
    (hr : row ∈ b.fields) :
    ∃ other ∈ a.fields, (other.1 == row.1) = true ∧ other.2.same row.2 = true := by
  obtain ⟨-, -, -, hf, -⟩ := same_iff.mp h
  obtain ⟨other, ho, hs⟩ := (sameRows_iff.mp hf).2 row hr
  exact ⟨other, ho, by simpa [relatedRow] using hs⟩

end TypeDescriptor

end ModelSchema
