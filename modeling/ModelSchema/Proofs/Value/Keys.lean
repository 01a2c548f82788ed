import ModelSchema.Proofs.Tables
import ModelSchema.Proofs.Value.Sameness

/-!
# Texts as keys

Most tables have texts as keys, each there once, and most remarks are texts or missing. Such values
are the same only if they are equal, so the order of the rows is all in which two such tables with
the same rows can differ.
-/

namespace ModelSchema

variable {α β : Type} {rows others : List (Value × α)}

/-- The keys of a table are texts, each there once. -/
structure TextKeyed (rows : List (Value × α)) : Prop where
  text : ∀ row ∈ rows, ∃ n, row.1 = .text n
  distinct : Table.Distinct rows

theorem Value.eq_of_beq_text {v : Value} {n : String} (h : (v == .text n) = true) : v = .text n :=
  Value.text_same_iff.mp (BEq.symm h)

namespace TextKeyed

theorem nil : TextKeyed ([] : List (Value × α)) := by
  constructor
  · intro row hr
    cases hr
  · exact .nil

theorem singleton (n : String) (a : α) : TextKeyed [(.text n, a)] := by
  constructor
  · intro row hr
    exact ⟨n, by rw [List.mem_singleton.mp hr]⟩
  · exact List.pairwise_singleton _ _

theorem perm (h : TextKeyed rows) (hp : rows.Perm others) : TextKeyed others := by
  refine ⟨fun row hr => h.text row (hp.mem_iff.mpr hr), hp.pairwise h.distinct fun {x y} hxy => ?_⟩
  exact Bool.eq_false_iff.mpr fun hyx => by rw [BEq.symm hyx] at hxy; cases hxy

theorem map (h : TextKeyed rows) (f : Value × α → β) :
    TextKeyed (rows.map fun row => (row.1, f row)) := by
  constructor
  · intro row hr
    obtain ⟨source, hs, rfl⟩ := List.mem_map.mp hr
    exact h.text source hs
  · exact List.pairwise_map.mpr h.distinct

theorem nodup (h : TextKeyed rows) : rows.Nodup := by
  apply h.distinct.imp
  intro x y hxy he
  rw [he] at hxy
  simp at hxy

theorem eq_of_fst_eq (h : TextKeyed rows) {x y : Value × α} (hx : x ∈ rows) (hy : y ∈ rows)
    (hxy : x.1 = y.1) : x = y := by
  have hfx := Table.find?_of_mem h.distinct hx
  have hfy := Table.find?_of_mem h.distinct hy
  rw [hxy, hfy] at hfx
  exact Prod.ext hxy (Option.some.inj hfx).symm

/-- Two such tables with the same rows differ in order at most. -/
theorem perm_of_mem_iff (h : TextKeyed rows) (h' : TextKeyed others)
    (hm : ∀ row, row ∈ rows ↔ row ∈ others) : rows.Perm others :=
  (List.perm_ext_iff_of_nodup h.nodup h'.nodup).mpr hm

end TextKeyed

/-- A remark: a text, or none. -/
def Value.IsRemark (v : Value) : Prop := v = .null ∨ ∃ n, v = .text n

namespace Value.IsRemark

variable {v w : Value}

theorem eq_of_same (hv : v.IsRemark) (h : v.same w = true) : v = w := by
  rcases hv with rfl | ⟨n, rfl⟩
  · exact (null_same_iff.mp h).symm
  · exact (text_same_iff.mp h).symm

theorem signals (hv : v.IsRemark) (w : Value) : v.signals w = false := by
  rcases hv with rfl | ⟨n, rfl⟩
  · exact null_signals w
  · exact text_signals n w

theorem eq_of_sameItems {xs ys : List Value} (hx : ∀ v ∈ xs, v.IsRemark)
    (h : sameItems xs ys = true) : xs = ys := by
  induction xs generalizing ys with
  | nil => cases ys with
    | nil => rfl
    | cons y ys => cases h
  | cons x xs ih => cases ys with
    | nil => cases h
    | cons y ys =>
      simp only [sameItems, Bool.and_eq_true] at h
      rw [List.forall_mem_cons] at hx
      rw [hx.1.eq_of_same h.1, ih hx.2 h.2]

theorem itemsSignal {xs : List Value} (hx : ∀ v ∈ xs, v.IsRemark) (ys : List Value) :
    Value.itemsSignal xs ys = false := by
  induction xs generalizing ys with
  | nil => rfl
  | cons x xs ih => cases ys with
    | nil => rfl
    | cons y ys =>
      rw [List.forall_mem_cons] at hx
      simp [Value.itemsSignal, hx.1.signals y, ih hx.2 ys]

end Value.IsRemark

end ModelSchema
