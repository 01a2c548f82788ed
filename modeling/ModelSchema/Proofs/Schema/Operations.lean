import ModelSchema.Proofs.Schema.Build

/-!
# Registries after any operations

A registry may be used in any order and again after a failure. Whatever the operation, the registry
comes out with types that it accepts, with one type marked, or sealed (`Step`); everything that
holds after all operations is shown for these three. Main statement: names stay distinct and are
those of the types under them, types stay in their place and change in their mark only, and an
operation that fails has changed nothing, a merge of many types apart, which has registered the ones
before the type that is refused.
-/

namespace ModelSchema

open Procedure

variable {r r' : Registry} {t e : TypeDescriptor} {ts : List TypeDescriptor} {name : Value}

/-- A type without its mark of consumption. -/
def TypeDescriptor.unmarked (t : TypeDescriptor) : TypeDescriptor := { t with generated := false }

namespace Registry

/-- The rows of a registry, without the marks of consumption. -/
def unmarked (r : Registry) : List (Value × TypeDescriptor) :=
  r.types.map fun row => (row.1, row.2.unmarked)

theorem names_eq_unmarked (r : Registry) : r.names = r.unmarked.map (·.1) := by
  unfold names unmarked
  rw [List.map_map]
  rfl

/-- The registry with a type marked as consumed under a name. -/
def mark (r : Registry) (name : Value) (t : TypeDescriptor) : Registry :=
  { r with types := Table.put name { t with generated := true } r.types }

theorem markGenerated_of_fetched (h : r.fetch name = .ok t) :
    (markGenerated name).Ends r (.ok ()) (r.mark name t) := by
  apply Ends.bind (ends_get.mpr ⟨rfl, rfl⟩)
  apply Ends.bind (ends_liftM.mpr ⟨h, rfl⟩)
  exact ends_modify.mpr ⟨rfl, rfl⟩

theorem markGenerated_of_missing {x : Failure} (h : r.fetch name = .error x) :
    (markGenerated name).Ends r (.error x) r := by
  apply Ends.bind (ends_get.mpr ⟨rfl, rfl⟩)
  exact ends_bind_error.mpr (.inl (ends_liftM.mpr ⟨h, rfl⟩))

theorem markGenerated_ends_error {x : Failure} (h : (markGenerated name).Ends r (.error x) r') :
    r.fetch name = .error x ∧ r' = r := by
  cases hf : r.fetch name with
  | ok t => cases (h.unique (markGenerated_of_fetched hf)).1
  | error x' =>
    obtain ⟨hx, hr⟩ := h.unique (markGenerated_of_missing hf)
    cases hx
    exact ⟨rfl, hr⟩

theorem unmarked_mark (h : r.fetch name = .ok t) : (r.mark name t).unmarked = r.unmarked := by
  have hfound : Table.find? name r.types = some t := (fetch_ok_iff.mp h).2
  have hlook : ({ t with generated := true } : TypeDescriptor).unmarked = t.unmarked := rfl
  exact Table.map_put_of_find? hfound hlook

inductive Operation where
  | register (t : TypeDescriptor)
  | merge (ts : List TypeDescriptor)
  | markGenerated (name : Value)
  | freeze

/-- The registry after an operation, which may fail. -/
def next (r : Registry) : Operation → Registry
  | .register t => (Registry.register t).finalState r
  | .merge ts => (Registry.merge ts).finalState r
  | .markGenerated name => (Registry.markGenerated name).finalState r
  | .freeze => Registry.freeze.finalState r

/-- The registry after operations, each of which may fail. -/
def after (r : Registry) (ops : List Operation) : Registry := ops.foldl next r

/-- What an operation, or the part of it before a failure, makes of a registry. -/
inductive Step (r : Registry) : Registry → Prop
  | added {ts : List TypeDescriptor} (h : r.AcceptsAll ts) : Step r (r.addAll ts)
  | marked {name : Value} {t : TypeDescriptor} (h : r.fetch name = .ok t) : Step r (r.mark name t)
  | fixed {text : String} (h : r.frozen = false) (ht : r.computeFingerprint = .ok text) :
      Step r (r.sealWith text)

theorem Step.refl (r : Registry) : r.Step r := by
  have hnone : r.AcceptsAll [] := trivial
  exact .added hnone

theorem merge_step {x : Except Failure Unit} (h : (merge ts).Ends r x r') : r.Step r' := by
  cases x with
  | ok u =>
    obtain ⟨ha, rfl⟩ := merge_ends_ok.mp h
    exact .added ha
  | error e =>
    obtain ⟨front, t, back, -, ha, rfl, -⟩ := merge_ends_error h
    exact .added ha

theorem register_step {x : Except Failure Registration} (h : (register t).Ends r x r') :
    r.Step r' := by
  cases x with
  | ok reg =>
    obtain ⟨ha, -, rfl⟩ := register_ends_ok.mp h
    have hone : r.AcceptsAll [t] := ⟨ha, trivial⟩
    exact .added hone
  | error e =>
    rw [(register_ends_error h).2]
    exact .refl r

theorem markGenerated_step {x : Except Failure Unit} (h : (markGenerated name).Ends r x r') :
    r.Step r' := by
  cases hf : r.fetch name with
  | ok t =>
    rw [(h.unique (markGenerated_of_fetched hf)).2]
    exact .marked hf
  | error e =>
    rw [(h.unique (markGenerated_of_missing hf)).2]
    exact .refl r

theorem freeze_step {x : Except Failure String} (h : freeze.Ends r x r') : r.Step r' := by
  cases x with
  | ok text =>
    obtain ⟨hz, ht, rfl⟩ := freeze_ends_ok.mp h
    exact .fixed hz ht
  | error e =>
    rw [(freeze_ends_error h).2]
    exact .refl r

theorem next_step (r : Registry) (op : Operation) : r.Step (r.next op) := by
  cases op with
  | register t => exact register_step (ends_self (Registry.register t) r)
  | merge ts => exact merge_step (ends_self (Registry.merge ts) r)
  | markGenerated name => exact markGenerated_step (ends_self (Registry.markGenerated name) r)
  | freeze => exact freeze_step (ends_self Registry.freeze r)

/-- What holds of a registry and is kept by each step holds after all operations. -/
theorem after_induction {P : Registry → Prop} (hr : P r)
    (hstep : ∀ {s s' : Registry}, P s → s.Step s' → P s') (ops : List Operation) :
    P (r.after ops) := by
  induction ops generalizing r with
  | nil => exact hr
  | cons op ops ih => exact ih (hstep hr (next_step r op))

theorem after_registers (h : r.AcceptsAll ts) : r.after (ts.map .register) = r.addAll ts := by
  induction ts generalizing r with
  | nil => rfl
  | cons t ts ih =>
    have hfirst : r.next (.register t) = r.add t := (register_of_accepts h.1).1
    change (r.next (.register t)).after (ts.map .register) = (r.add t).addAll ts
    rw [hfirst, ih h.2]

theorem unmarked_prefix_addAll (r : Registry) (ts : List TypeDescriptor) :
    r.unmarked <+: (r.addAll ts).unmarked :=
  (types_prefix_addAll r ts).map _

theorem Step.keeps_unmarked (h : r.Step r') : r.unmarked <+: r'.unmarked := by
  cases h with
  | added _ => exact unmarked_prefix_addAll r _
  | marked hf => exact (unmarked_mark hf).symm ▸ List.prefix_rfl
  | fixed _ _ => exact List.prefix_rfl

/-- The rows of a registry have distinct keys, each the name of the type in the row. -/
structure Named (r : Registry) : Prop where
  distinct : Table.Distinct r.types
  name : ∀ row ∈ r.types, row.2.name = row.1

theorem Named.addAll (h : r.Named) (ts : List TypeDescriptor) : (r.addAll ts).Named := by
  constructor
  · exact distinct_addAll h.distinct
  · intro row hrow
    rcases mem_types_addAll hrow with hrow | ⟨t, -, rfl⟩
    · exact h.name row hrow
    · rfl

theorem Named.mark (h : r.Named) (hf : r.fetch name = .ok t) : (r.mark name t).Named := by
  constructor
  · exact Table.distinct_put h.distinct
  · intro row hrow
    -- the marked row is among the old ones but for the mark, so its key is the name of its type
    have hin : (row.1, row.2.unmarked) ∈ (r.mark name t).unmarked := List.mem_map_of_mem hrow
    rw [unmarked_mark hf] at hin
    obtain ⟨old, hold, heq⟩ := List.mem_map.mp hin
    obtain ⟨hkey, htype⟩ := Prod.mk.inj heq
    have hname : old.2.unmarked.name = row.2.unmarked.name := congrArg TypeDescriptor.name htype
    change row.2.unmarked.name = row.1
    rw [← hname, ← hkey]
    exact h.name old hold

theorem Named.step (h : r.Named) (hs : r.Step r') : r'.Named := by
  cases hs with
  | added _ => exact h.addAll _
  | marked hf => exact h.mark hf
  | fixed _ _ => exact ⟨h.distinct, h.name⟩

theorem named_after (ops : List Operation) : (empty.after ops).Named :=
  after_induction ⟨.nil, fun _ hrow => by cases hrow⟩ Named.step ops

/-- A registration succeeds and adds nothing exactly if the registry is not frozen and the same type
is there. -/
theorem register_keeps_iff :
    (∃ reg, (register t).Ends r (.ok reg) r) ↔
      r.frozen = false ∧
        ∃ e, r.lookup t.name = .ok (some e) ∧ e.signals t = false ∧ e.same t = true := by
  constructor
  · rintro ⟨reg, h⟩
    obtain ⟨ha, -, hadd⟩ := register_ends_ok.mp h
    cases hf : r.find? t.name with
    | some e =>
      have hlookup : r.lookup t.name = .ok (some e) := by rw [lookup, if_pos ha.hashable, hf]
      exact ⟨ha.unfrozen, e, hlookup, ha.comparable e hf, ha.agrees e hf⟩
    | none =>
      rw [add_of_free hf] at hadd
      have htypes : r.types ++ [(t.name, t)] = r.types := congrArg Registry.types hadd
      exact absurd (List.append_right_eq_self.mp htypes) (List.cons_ne_nil _ _)
  · rintro ⟨hz, e, hlookup, hsignal, hsame⟩
    unfold lookup at hlookup
    split at hlookup
    · rename_i hh
      have hf : r.find? t.name = some e := Except.ok.inj hlookup
      have hends := register_of_found hz hh hf
      rw [hsignal, if_neg Bool.false_ne_true, if_pos hsame] at hends
      exact ⟨_, hends⟩
    · cases hlookup

/-- After any operations on an empty registry: the names are distinct and each is that of the type
under it. An operation leaves the names in their places and changes the types in their marks only. A
registration, a marking or a freeze that fails changes nothing. A registration succeeds without
adding a type exactly if the registry is not frozen and has the same type under the name. A merge
that fails leaves what registering the types before the refused one leaves. -/
theorem operations_keep_types (ops : List Operation) :
    let r := empty.after ops
    (r.names.Pairwise fun a b => (a == b) = false) ∧ (∀ row ∈ r.types, row.2.name = row.1) ∧
      (∀ op, r.names <+: (r.next op).names ∧ r.unmarked <+: (r.next op).unmarked) ∧
      (∀ t x r', (register t).Ends r (.error x) r' → r' = r) ∧
      (∀ name x r', (markGenerated name).Ends r (.error x) r' → r' = r) ∧
      (∀ x r', freeze.Ends r (.error x) r' → r' = r) ∧
      (∀ t, (∃ reg, (register t).Ends r (.ok reg) r) ↔
        r.frozen = false ∧
          ∃ e, r.lookup t.name = .ok (some e) ∧ e.signals t = false ∧ e.same t = true) ∧
      ∀ ts x r', (merge ts).Ends r (.error x) r' →
        ∃ front t back, ts = front ++ t :: back ∧ (merge front).Ends r (.ok ()) r' ∧
          r' = r.after (front.map .register) ∧ (register t).Ends r' (.error x) r' := by
  intro r
  have hnamed : r.Named := named_after ops
  refine ⟨?_, hnamed.name, ?_, ?_, ?_, ?_, ?_, ?_⟩
  · exact List.pairwise_map.mpr hnamed.distinct
  · intro op
    have hprefix : r.unmarked <+: (r.next op).unmarked := (next_step r op).keeps_unmarked
    constructor
    · rw [names_eq_unmarked, names_eq_unmarked]
      exact hprefix.map _
    · exact hprefix
  · intro t x r' h
    exact (register_ends_error h).2
  · intro name x r' h
    exact (markGenerated_ends_error h).2
  · intro x r' h
    exact (freeze_ends_error h).2
  · intro t
    exact register_keeps_iff
  · intro ts x r' h
    obtain ⟨front, t, back, hts, hfront, ht⟩ := merge_stops h
    obtain ⟨hall, hadd⟩ := merge_ends_ok.mp hfront
    exact ⟨front, t, back, hts, hfront, by rw [after_registers hall, hadd], ht⟩

def pointType : TypeDescriptor := { name := .text "Point", category := .object }

def pointEnum : TypeDescriptor := { pointType with category := .enum }

def lineType : TypeDescriptor := { name := .text "Line", category := .object }

/-- A type that is marked counts as the same, and a merge stops at a type of another category. -/
theorem operations_keep_types_points :
    let r := empty.after [.register pointType, .markGenerated (.text "Point")]
    (∃ reg, (register pointType).Ends r (.ok reg) r) ∧
      ∃ x, (merge [lineType, pointEnum]).Ends r (.error x) (r.after [.register lineType]) := by
  intro r
  obtain ⟨-, -, -, -, -, -, hkeeps, hmerge⟩ :=
    operations_keep_types [.register pointType, .markGenerated (.text "Point")]
  constructor
  · refine (hkeeps pointType).mpr ⟨by decide +kernel, { pointType with generated := true }, ?_⟩
    exact ⟨rfl, rfl, rfl⟩
  · have hline : r.Accepts lineType := accepts_of_free rfl rfl rfl
    have hends := ends_self (merge [lineType, pointEnum]) r
    cases hx : ((merge [lineType, pointEnum]).run r).2.outcome with
    | ok u =>
      have hok : ((merge [lineType, pointEnum]).run r).2.outcome.isOk = false := by decide +kernel
      rw [hx] at hok
      cases hok
    | error x =>
      rw [hx] at hends
      obtain ⟨front, t, back, hts, -, hr, hrefused⟩ := hmerge _ x _ hends
      refine ⟨x, ?_⟩
      match front with
      | [] =>
        -- the line type is not the one that is refused
        obtain ⟨rfl, -⟩ := List.cons.inj hts
        exact absurd hline (register_ends_error (hr ▸ hrefused)).1
      | first :: rest =>
        obtain ⟨rfl, hrest⟩ := List.cons.inj hts
        obtain ⟨rfl, -⟩ : rest = [] ∧ pointEnum = t := by
          cases rest with
          | nil => exact ⟨rfl, (List.cons.inj hrest).1⟩
          | cons second others => simp at hrest
        rw [hr] at hends
        exact hends

end Registry

end ModelSchema
