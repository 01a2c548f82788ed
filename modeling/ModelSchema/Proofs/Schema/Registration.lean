import ModelSchema.Proofs.Execution
import ModelSchema.Proofs.Schema.Sameness
import ModelSchema.Proofs.Tables
import ModelSchema.Schema.Registry

/-!
# Registering types

Whether a registry accepts a type is decided by what it has under the name; accepting it adds it
(`add`) unless the same type is there, and a refused type leaves the registry as it was. A list of
types is registered exactly if each is accepted by the registry with those before it. Main
statements: after that the registry has, for each of the types, one that is the same under its name,
and beyond what it had before it has nothing else.
-/

namespace ModelSchema.Registry

open Procedure

variable {r r' : Registry} {t e : TypeDescriptor} {ts : List TypeDescriptor}

/-- A registry accepts a type if it is not frozen, the name of the type can be looked up, and a type
that is there under the name can be compared with the given one and is the same. -/
structure Accepts (r : Registry) (t : TypeDescriptor) : Prop where
  unfrozen : r.frozen = false
  hashable : t.name.isHashable = true
  comparable : ∀ e, r.find? t.name = some e → e.signals t = false
  agrees : ∀ e, r.find? t.name = some e → e.same t = true

theorem accepts_of_free (h : r.frozen = false) (hh : t.name.isHashable = true)
    (hf : r.find? t.name = none) : r.Accepts t :=
  ⟨h, hh, by simp [hf], by simp [hf]⟩

/-- The registry with a type that it accepts. -/
def add (r : Registry) (t : TypeDescriptor) : Registry :=
  match r.find? t.name with
  | some _ => r
  | none => { r with types := r.types ++ [(t.name, t)] }

/-- The outcome of registering a type that a registry accepts. -/
def registration (r : Registry) (t : TypeDescriptor) : Registration :=
  match r.find? t.name with
  | some e => ⟨e, false⟩
  | none => ⟨t, true⟩

theorem fetch_ok_iff {name : Value} :
    r.fetch name = .ok t ↔ name.isHashable = true ∧ r.find? name = some t := by
  unfold fetch lookup
  cases name.isHashable with
  | false => simp [Except.bind]
  | true => cases r.find? name <;> simp [Except.bind]

theorem register_of_frozen (h : r.frozen = true) :
    (register t).Ends r (.error (.registrationFrozen t.name)) r := by
  apply Ends.bind (ends_get.mpr ⟨rfl, rfl⟩)
  simp [h]

theorem register_of_unhashable (h : r.frozen = false) (hh : t.name.isHashable = false) :
    (register t).Ends r (.error .typeMismatch) r := by
  apply Ends.bind (ends_get.mpr ⟨rfl, rfl⟩)
  simp only [h, Bool.false_eq_true, if_false]
  exact ends_bind_error.mpr (.inl (by simp [lookup, hh]))

theorem register_of_found (h : r.frozen = false) (hh : t.name.isHashable = true)
    (hf : r.find? t.name = some e) :
    (register t).Ends r (if e.signals t then .error .undefinedComparison else if e.same t then .ok
      ⟨e, false⟩ else .error (.nameTaken t.name e.category)) r := by
  apply Ends.bind (ends_get.mpr ⟨rfl, rfl⟩)
  simp only [h, Bool.false_eq_true, if_false]
  apply Ends.bind (a := some e) (ends_liftM.mpr ⟨by simp [lookup, hh, hf], rfl⟩)
  dsimp only
  split
  · simp
  · split <;> simp

theorem register_of_free (h : r.frozen = false) (hh : t.name.isHashable = true)
    (hf : r.find? t.name = none) :
    (register t).Ends r (.ok ⟨t, true⟩) { r with types := r.types ++ [(t.name, t)] } := by
  apply Ends.bind (ends_get.mpr ⟨rfl, rfl⟩)
  simp only [h, Bool.false_eq_true, if_false]
  apply Ends.bind (a := none) (ends_liftM.mpr ⟨by simp [lookup, hh, hf], rfl⟩)
  apply Ends.bind (ends_modify.mpr ⟨rfl, rfl⟩)
  apply Ends.bind (ends_liftM.mpr ⟨rfl, rfl⟩)
  simp [h]

theorem register_of_accepts (h : r.Accepts t) :
    (register t).Ends r (.ok (r.registration t)) (r.add t) := by
  cases hf : r.find? t.name with
  | some e =>
    have hr := register_of_found h.unfrozen h.hashable hf
    simpa [h.comparable e hf, h.agrees e hf, registration, add, hf] using hr
  | none => simpa [registration, add, hf] using register_of_free h.unfrozen h.hashable hf

theorem register_of_not_accepts (h : ¬ r.Accepts t) : ∃ e, (register t).Ends r (.error e) r := by
  cases hz : r.frozen with
  | true => exact ⟨_, register_of_frozen hz⟩
  | false =>
    cases hh : t.name.isHashable with
    | false => exact ⟨_, register_of_unhashable hz hh⟩
    | true =>
      cases hf : r.find? t.name with
      | none => exact absurd (accepts_of_free hz hh hf) h
      | some e =>
        have hr := register_of_found hz hh hf
        split at hr
        · exact ⟨_, hr⟩
        · split at hr
          · rename_i hs ht
            exact absurd ⟨hz, hh, by simpa [hf] using hs, by simpa [hf] using ht⟩ h
          · exact ⟨_, hr⟩

theorem register_ends_ok {reg : Registration} :
    (register t).Ends r (.ok reg) r' ↔ r.Accepts t ∧ r.registration t = reg ∧ r.add t = r' := by
  constructor
  · intro h
    by_cases ha : r.Accepts t
    · obtain ⟨hx, rfl⟩ := (register_of_accepts ha).unique h
      exact ⟨ha, Except.ok.inj hx, rfl⟩
    · obtain ⟨e, he⟩ := register_of_not_accepts ha
      exact absurd (he.unique h).1 (by simp)
  · rintro ⟨ha, rfl, rfl⟩
    exact register_of_accepts ha

theorem register_ends_error {x : Failure} (h : (register t).Ends r (.error x) r') :
    ¬ r.Accepts t ∧ r' = r := by
  by_cases ha : r.Accepts t
  · exact absurd ((register_of_accepts ha).unique h).1 (by simp)
  · obtain ⟨e, he⟩ := register_of_not_accepts ha
    exact ⟨ha, (he.unique h).2.symm⟩

theorem add_of_found (h : r.find? t.name = some e) : r.add t = r := by rw [add, h]

theorem add_of_free (h : r.find? t.name = none) :
    r.add t = { r with types := r.types ++ [(t.name, t)] } := by
  rw [add, h]

@[simp] theorem frozen_add (r : Registry) (t : TypeDescriptor) : (r.add t).frozen = r.frozen := by
  rw [add]
  split <;> rfl

theorem types_prefix_add (r : Registry) (t : TypeDescriptor) : r.types <+: (r.add t).types := by
  rw [add]
  split
  · exact List.prefix_rfl
  · exact List.prefix_append _ _

/-- What a registry has under the name of a type that it accepts is the same type. -/
theorem find?_add_self (h : r.Accepts t) :
    ∃ e, (r.add t).find? t.name = some e ∧ e.same t = true := by
  cases hf : r.find? t.name with
  | some e => exact ⟨e, by rw [add_of_found hf, hf], h.agrees e hf⟩
  | none =>
    refine ⟨t, ?_, t.same_refl⟩
    have hn : Table.find? t.name r.types = none := hf
    rw [add_of_free hf, find?, Table.find?_append, hn, Option.none_or]
    simp [Table.find?]

theorem registration_same (h : r.Accepts t) : (r.registration t).stored.same t = true := by
  cases hf : r.find? t.name with
  | some e => simpa [registration, hf] using h.agrees e hf
  | none => simpa [registration, hf] using t.same_refl

theorem mem_types_add {row : Value × TypeDescriptor} (h : row ∈ (r.add t).types) :
    row ∈ r.types ∨ row = (t.name, t) := by
  rw [add] at h
  split at h
  · exact .inl h
  · simpa using h

theorem distinct_add (h : Table.Distinct r.types) : Table.Distinct (r.add t).types := by
  cases hf : r.find? t.name with
  | some e => rwa [add_of_found hf]
  | none =>
    rw [add_of_free hf]
    refine List.pairwise_append.mpr ⟨h, List.pairwise_singleton _ _, fun row hr other ho => ?_⟩
    rw [List.mem_singleton.mp ho]
    exact Table.find?_eq_none_iff.mp hf row hr

/-- Each type of a list is accepted by the registry with the types before it. -/
def AcceptsAll (r : Registry) : List TypeDescriptor → Prop
  | [] => True
  | t :: rest => r.Accepts t ∧ (r.add t).AcceptsAll rest

/-- The registry with a list of types that it accepts. -/
def addAll (r : Registry) (ts : List TypeDescriptor) : Registry := ts.foldl add r

theorem addAll_append (r : Registry) (ts us : List TypeDescriptor) :
    r.addAll (ts ++ us) = (r.addAll ts).addAll us :=
  List.foldl_append

theorem addAll_concat (r : Registry) (ts : List TypeDescriptor) (t : TypeDescriptor) :
    r.addAll (ts ++ [t]) = (r.addAll ts).add t := addAll_append r ts [t]

theorem acceptsAll_append {us : List TypeDescriptor} :
    r.AcceptsAll (ts ++ us) ↔ r.AcceptsAll ts ∧ (r.addAll ts).AcceptsAll us := by
  induction ts generalizing r with
  | nil => simp [AcceptsAll, addAll]
  | cons t ts ih => simp only [List.cons_append, AcceptsAll, ih, and_assoc]; rfl

theorem merge_ends_ok {u : Unit} :
    (merge ts).Ends r (.ok u) r' ↔ r.AcceptsAll ts ∧ r.addAll ts = r' := by
  induction ts generalizing r with
  | nil => simp [merge, AcceptsAll, addAll]
  | cons t ts ih =>
    simp only [merge, ends_bind_ok, register_ends_ok, ih, AcceptsAll]
    constructor
    · rintro ⟨_, _, ⟨ha, _, rfl⟩, hr, rfl⟩
      exact ⟨⟨ha, hr⟩, rfl⟩
    · rintro ⟨⟨ha, hr⟩, rfl⟩
      exact ⟨_, _, ⟨ha, rfl, rfl⟩, hr, rfl⟩

/-- Types are accepted in any order if they can be told apart by their names from each other and
from what is there. -/
theorem acceptsAll_of_compatible (hz : r.frozen = false) (hh : ∀ t ∈ ts, t.name.isHashable = true)
    (hr :
      ∀ row ∈ r.types,
        ∀ t ∈ ts, (row.1 == t.name) = true → row.2.signals t = false ∧ row.2.same t = true)
    (hts : ∀ t ∈ ts, ∀ u ∈ ts, (t.name == u.name) = true → t.signals u = false ∧ t.same u = true) :
    r.AcceptsAll ts := by
  induction ts generalizing r with
  | nil => exact trivial
  | cons t ts ih =>
    have hfound : ∀ e, r.find? t.name = some e → e.signals t = false ∧ e.same t = true := by
      intro e he
      obtain ⟨row, hrow, hkey, rfl⟩ := Table.mem_of_find? he
      exact hr row hrow t List.mem_cons_self hkey
    have ht : r.Accepts t :=
      ⟨hz, hh t List.mem_cons_self, fun e he => (hfound e he).1, fun e he => (hfound e he).2⟩
    refine ⟨ht, ih ?_ (fun u hu => hh u (List.mem_cons_of_mem _ hu)) (fun row hrow u hu hkey => ?_)
      fun u hu v hv => hts u (List.mem_cons_of_mem _ hu) v (List.mem_cons_of_mem _ hv)⟩
    · rw [frozen_add, hz]
    · rcases mem_types_add hrow with hrow | rfl
      · exact hr row hrow u (List.mem_cons_of_mem _ hu) hkey
      · exact hts t List.mem_cons_self u (List.mem_cons_of_mem _ hu) hkey

/-- A merge that fails has registered the types before the one that is refused. -/
theorem merge_stops {x : Failure} (h : (merge ts).Ends r (.error x) r') :
    ∃ front t back,
      ts = front ++ t :: back ∧ (merge front).Ends r (.ok ()) r' ∧
        (register t).Ends r' (.error x) r' := by
  induction ts generalizing r with
  | nil => simp [merge] at h
  | cons t ts ih =>
    rcases ends_bind_error.mp h with h | ⟨reg, next, hr, h⟩
    · obtain ⟨-, rfl⟩ := register_ends_error h
      exact ⟨[], t, ts, rfl, ends_pure.mpr ⟨rfl, rfl⟩, h⟩
    · obtain ⟨front, u, back, rfl, hfront, hu⟩ := ih h
      exact ⟨t :: front, u, back, rfl, .bind hr hfront, hu⟩

theorem merge_ends_error {x : Failure} (h : (merge ts).Ends r (.error x) r') :
    ∃ front t back,
      ts = front ++ t :: back ∧ r.AcceptsAll front ∧ r' = r.addAll front ∧ ¬ r'.Accepts t := by
  obtain ⟨front, t, back, hts, hfront, ht⟩ := merge_stops h
  obtain ⟨hall, hr⟩ := merge_ends_ok.mp hfront
  exact ⟨front, t, back, hts, hall, hr.symm, (register_ends_error ht).1⟩

theorem types_prefix_addAll (r : Registry) (ts : List TypeDescriptor) :
    r.types <+: (r.addAll ts).types := by
  induction ts generalizing r with
  | nil => exact List.prefix_rfl
  | cons t ts ih => exact (types_prefix_add r t).trans (ih (r.add t))

@[simp] theorem frozen_addAll (r : Registry) (ts : List TypeDescriptor) :
    (r.addAll ts).frozen = r.frozen := by
  induction ts generalizing r with
  | nil => rfl
  | cons t ts ih => exact (ih (r.add t)).trans (frozen_add r t)

theorem find?_addAll {name : Value} (h : r.find? name = some e) :
    (r.addAll ts).find? name = some e :=
  Table.find?_of_prefix (types_prefix_addAll r ts) h

theorem find?_addAll_of_mem (h : r.AcceptsAll ts) (ht : t ∈ ts) :
    ∃ e, (r.addAll ts).find? t.name = some e ∧ e.same t = true := by
  induction ts generalizing r with
  | nil => simp at ht
  | cons u ts ih =>
    rcases List.mem_cons.mp ht with rfl | ht
    · obtain ⟨e, he, hs⟩ := find?_add_self h.1
      have hk : ((r.add t).addAll ts).find? t.name = some e := find?_addAll he
      exact ⟨e, hk, hs⟩
    · exact ih h.2 ht

theorem mem_types_addAll {row : Value × TypeDescriptor} (h : row ∈ (r.addAll ts).types) :
    row ∈ r.types ∨ ∃ t ∈ ts, row = (t.name, t) := by
  induction ts generalizing r with
  | nil => exact .inl h
  | cons t ts ih =>
    rcases ih (r := r.add t) h with h | ⟨u, hu, rfl⟩
    · rcases mem_types_add h with h | rfl
      · exact .inl h
      · exact .inr ⟨t, by simp, rfl⟩
    · exact .inr ⟨u, by simp [hu], rfl⟩

theorem distinct_addAll (h : Table.Distinct r.types) : Table.Distinct (r.addAll ts).types := by
  induction ts generalizing r with
  | nil => exact h
  | cons t ts ih => exact ih (distinct_add h)

end ModelSchema.Registry
