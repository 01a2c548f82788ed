import Mathlib.Logic.Relation
import ModelSchema.Proofs.Value.Sameness
import ModelSchema.Value.Access

/-!
# What is reached from a value

A value leads to the items that it lists and to the values of its entries, and reaches what these
lead to in turn. What is reached gets smaller at each step, except inside a knot, which leads to
itself. Main statement: a value is reached again from what it leads to exactly if it is a knot.
-/

namespace ModelSchema.Value

variable {v w : Value} {P : Value → Prop}

/-- The keys of a mapping. -/
def keys (v : Value) : List Value := (v.entries?.getD []).map Prod.fst

/-- The items of a list or a tuple, or the values of the entries of a mapping. -/
def contents : Value → List Value
  | .list items | .tuple items => items
  | v => (v.entries?.getD []).map Prod.snd

def LeadsTo (v w : Value) : Prop := w ∈ v.contents

/-- A value is reached through the items of lists and tuples and the values of mappings. -/
def Reaches : Value → Value → Prop := Relation.ReflTransGen LeadsTo

/-- A value holds itself if it is reached from what it leads to. -/
def HoldsItself (v : Value) : Prop := Relation.TransGen LeadsTo v v

/-- The property holds of every value that is reached. -/
def Throughout (P : Value → Prop) (v : Value) : Prop := ∀ w, v.Reaches w → P w

theorem Throughout.self (h : v.Throughout P) : P v := h v .refl

theorem Throughout.of_mem (h : v.Throughout P) (hw : w ∈ v.contents) : w.Throughout P := by
  intro u hu
  exact h u (.head hw hu)

theorem throughout_of_contents (hv : P v) (h : ∀ w ∈ v.contents, w.Throughout P) :
    v.Throughout P := by
  intro u hu
  rcases hu.cases_head with rfl | ⟨w, hw, hwu⟩
  · exact hv
  · exact h w hw u hwu

theorem throughout_of_no_contents (hv : P v) (h : v.contents = []) : v.Throughout P := by
  apply throughout_of_contents hv
  simp [h]

def IsKnot (v : Value) : Prop := ∃ before key after form, v = .knot before key after form

theorem mem_parts_of_mem_contents (hv : ¬ v.IsKnot) (h : w ∈ v.contents) : w ∈ v.parts := by
  cases v with
  | list items | tuple items => exact h
  | mapping entries =>
    obtain ⟨entry, hentry, rfl⟩ := List.mem_map.mp h
    exact List.mem_flatMap.mpr ⟨entry, hentry, by simp⟩
  | knot before key after form => exact absurd ⟨before, key, after, form, rfl⟩ hv
  | _ => cases h

/-- What is reached from a value that is shown is shown as a part of it. -/
theorem isShowable_of_mem_contents (hv : ¬ v.IsKnot) (hs : v.isShowable = true)
    (h : w ∈ v.contents) : w.isShowable = true := by
  cases v with
  | list items | tuple items => exact itemsShowable_iff.mp hs w h
  | mapping entries =>
    obtain ⟨entry, hentry, rfl⟩ := List.mem_map.mp h
    exact (entriesShowable_iff.mp hs entry hentry).2
  | knot before key after form => exact absurd ⟨before, key, after, form, rfl⟩ hv
  | _ => cases h

theorem sizeOf_snd_lt_of_mem {entries : List (Value × Value)} (h : w ∈ entries.map Prod.snd) :
    sizeOf w < sizeOf entries := by
  obtain ⟨entry, hentry, rfl⟩ := List.mem_map.mp h
  exact sizeOf_lt_of_mem_entries (List.mem_flatMap.mpr ⟨entry, hentry, by simp⟩)

theorem knot_sizeOf (before : List (Value × Value)) (key : Value) (after : List (Value × Value))
    (form : KnotForm) :
    sizeOf (Value.knot before key after form) = 2 + sizeOf before + sizeOf key + sizeOf after := by
  cases form <;> simp +arith

/-- Nothing larger is reached: a knot leads to knots of its own size, every other value to smaller
values. -/
theorem sizeOf_le_of_mem_contents (h : w ∈ v.contents) : sizeOf w ≤ sizeOf v := by
  by_cases hv : v.IsKnot
  · obtain ⟨before, key, after, form, rfl⟩ := hv
    have hsides : w ∈ before.map Prod.snd ∨ w ∈ after.map Prod.snd ∨
        ∃ other, w = .knot before key after other := by
      cases form with
      | direct | wrapped =>
        rw [contents, entries?, Option.getD_some, List.map_append, List.map_cons] at h
        · rcases List.mem_append.mp h with h | h
          · exact .inl h
          · rcases List.mem_cons.mp h with rfl | h
            · exact .inr (.inr ⟨_, rfl⟩)
            · exact .inr (.inl h)
        · simp
        · simp
      | wrapper => exact .inr (.inr ⟨.wrapped, List.mem_singleton.mp h⟩)
    rw [knot_sizeOf]
    rcases hsides with h | h | ⟨other, rfl⟩
    · have := sizeOf_snd_lt_of_mem h
      omega
    · have := sizeOf_snd_lt_of_mem h
      omega
    · exact Nat.le_of_eq (knot_sizeOf before key after other)
  · exact Nat.le_of_lt (sizeOf_lt_of_mem_parts (mem_parts_of_mem_contents hv h))

theorem Reaches.sizeOf_le (h : v.Reaches w) : sizeOf w ≤ sizeOf v := by
  induction h with
  | refl => exact Nat.le_refl _
  | tail _ hlast ih => exact Nat.le_trans (sizeOf_le_of_mem_contents hlast) ih

theorem knot_holdsItself (before : List (Value × Value)) (key : Value)
    (after : List (Value × Value)) (form : KnotForm) :
    (Value.knot before key after form).HoldsItself := by
  have hwrapped :
      (Value.knot before key after .wrapped).LeadsTo (.knot before key after .wrapper) := by
    simp [LeadsTo, contents, entries?]
  have hwrapper :
      (Value.knot before key after .wrapper).LeadsTo (.knot before key after .wrapped) := by
    simp [LeadsTo, contents, entries?]
  cases form with
  | direct => exact .single (by simp [LeadsTo, contents, entries?])
  | wrapped => exact .tail (.single hwrapped) hwrapper
  | wrapper => exact .tail (.single hwrapper) hwrapped

theorem holdsItself_iff : v.HoldsItself ↔ v.IsKnot := by
  constructor
  · intro h
    by_cases hv : v.IsKnot
    · exact hv
    · obtain ⟨w, hw, hback⟩ := Relation.TransGen.head'_iff.mp h
      have hsmaller := sizeOf_lt_of_mem_parts (mem_parts_of_mem_contents hv hw)
      have hlarger := Reaches.sizeOf_le hback
      omega
  · rintro ⟨before, key, after, form, rfl⟩
    exact knot_holdsItself before key after form

end ModelSchema.Value
