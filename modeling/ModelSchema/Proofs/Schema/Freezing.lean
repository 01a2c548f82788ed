import ModelSchema.Proofs.Schema.Exportable
import ModelSchema.Proofs.Schema.Operations

/-!
# Frozen registries

A registry is frozen if and only if it has a fixed fingerprint, which then is the fingerprint of
what it exports (`Sealed`). Main statement: a freeze that fails leaves the registry open, and a
freeze that succeeds is final. Whatever is tried afterwards, the registry takes no type and is not
frozen again, and what it exports and its fingerprint stay the same; only marks of consumption can
be added, and they are not exported.
-/

namespace ModelSchema

open Procedure

variable {r r' : Registry} {t : TypeDescriptor} {ts : List TypeDescriptor} {text : String}
  {x : Failure}

namespace Registry

theorem exported_eq_unmarked (r : Registry) :
    r.exported = .mapping (r.unmarked.map fun row => (row.1, row.2.exported)) := by
  rw [exported, unmarked, List.map_map]
  rfl

theorem exported_congr (h : r.unmarked = r'.unmarked) : r.exported = r'.exported := by
  rw [exported_eq_unmarked, exported_eq_unmarked, h]

theorem computeFingerprint_congr (h : r.exported = r'.exported) :
    r.computeFingerprint = r'.computeFingerprint := by
  unfold computeFingerprint canonicalText
  rw [h]

theorem computeFingerprint_eq_error_iff :
    r.computeFingerprint = .error x ↔ r.canonicalText = .error x := by
  unfold computeFingerprint
  cases r.canonicalText with
  | error e => simp [Except.map]
  | ok cs => simp [Except.map]

/-- A registry is frozen if it has a fixed fingerprint, and only then, and the fingerprint is that
of its export. -/
structure Sealed (r : Registry) : Prop where
  frozen_iff : r.frozen = true ↔ ∃ text, r.fixedFingerprint = some text
  fresh : ∀ text, r.fixedFingerprint = some text → r.computeFingerprint = .ok text

@[simp] theorem fixedFingerprint_addAll (r : Registry) (ts : List TypeDescriptor) :
    (r.addAll ts).fixedFingerprint = r.fixedFingerprint := by
  induction ts generalizing r with
  | nil => rfl
  | cons t ts ih =>
    have hadd : (r.add t).fixedFingerprint = r.fixedFingerprint := by
      unfold add
      split <;> rfl
    exact (ih (r.add t)).trans hadd

theorem addAll_of_frozen (hz : r.frozen = true) (h : r.AcceptsAll ts) : r.addAll ts = r := by
  cases ts with
  | nil => rfl
  | cons t ts =>
    have hopen := h.1.unfrozen
    rw [hz] at hopen
    cases hopen

theorem Sealed.step (h : r.Sealed) (hs : r.Step r') : r'.Sealed := by
  cases hs with
  | @added ts ha =>
    by_cases hz : r.frozen = true
    · rw [addAll_of_frozen hz ha]
      exact h
    · have hnone : ∀ text, r.fixedFingerprint ≠ some text := by
        intro text htext
        exact hz (h.frozen_iff.mpr ⟨text, htext⟩)
      constructor
      · rw [frozen_addAll, fixedFingerprint_addAll]
        exact h.frozen_iff
      · intro text htext
        rw [fixedFingerprint_addAll] at htext
        exact absurd htext (hnone text)
  | @marked name t hf =>
    constructor
    · exact h.frozen_iff
    · intro text htext
      have hsame : (r.mark name t).exported = r.exported := exported_congr (unmarked_mark hf)
      rw [computeFingerprint_congr hsame]
      exact h.fresh text htext
  | @fixed text hz ht =>
    constructor
    · exact ⟨fun _ => ⟨text, rfl⟩, fun _ => rfl⟩
    · intro text' htext
      rw [← Option.some.inj htext]
      exact ht

theorem sealed_after (ops : List Operation) : (empty.after ops).Sealed := by
  have hempty : empty.Sealed := by
    constructor
    · constructor
      · intro hz
        cases hz
      · rintro ⟨text, htext⟩
        cases htext
    · intro text htext
      cases htext
  exact after_induction hempty Sealed.step ops

/-- A registry is frozen with a fixed fingerprint and an export. -/
structure FrozenAs (text : String) (content : Value) (r : Registry) : Prop where
  frozen : r.frozen = true
  fixed : r.fixedFingerprint = some text
  exported : r.exported = content

theorem FrozenAs.step {content : Value} (h : FrozenAs text content r) (hs : r.Step r') :
    FrozenAs text content r' := by
  cases hs with
  | added ha =>
    rw [addAll_of_frozen h.frozen ha]
    exact h
  | marked hf => exact ⟨h.frozen, h.fixed, (exported_congr (unmarked_mark hf)).trans h.exported⟩
  | fixed hz _ =>
    rw [h.frozen] at hz
    cases hz

theorem merge_of_frozen (hz : r.frozen = true) (t : TypeDescriptor) (ts : List TypeDescriptor) :
    (merge (t :: ts)).Ends r (.error (.registrationFrozen t.name)) r :=
  ends_bind_error.mpr (.inl (register_of_frozen hz))

/-- An open registry fails to freeze exactly if what it exports cannot be written. -/
theorem freeze_fails_iff (hz : r.frozen = false) :
    freeze.Ends r (.error x) r' ↔ r.canonicalText = .error x ∧ r' = r := by
  constructor
  · intro h
    obtain ⟨hreason, hsame⟩ := freeze_ends_error h
    rcases hreason with hfrozen | herror
    · rw [hz] at hfrozen
      cases hfrozen
    · exact ⟨computeFingerprint_eq_error_iff.mp herror, hsame⟩
  · rintro ⟨herror, rfl⟩
    exact freeze_of_unwritable hz (computeFingerprint_eq_error_iff.mpr herror)

/-- After any operations on an empty registry: it is frozen exactly if it has a fixed fingerprint. A
freeze of an open registry fails exactly if its export cannot be written; the registry then stays as
it is, open to every type of a free name. After a freeze that succeeds and any further operations,
each registration, each merge of at least one type and each freeze is refused, the export is that at
the freeze, and the fingerprint is the one that was given, and that of the export. -/
theorem freeze_is_final (ops : List Operation) :
    let r := empty.after ops
    (r.frozen = true ↔ ∃ text, r.fixedFingerprint = some text) ∧
      (r.frozen = false → ∀ x r',
        (freeze.Ends r (.error x) r' ↔ r.canonicalText = .error x ∧ r' = r) ∧
          (freeze.Ends r (.error x) r' → r'.frozen = false ∧
            ∀ t, t.name.isHashable = true → r'.find? t.name = none →
              (register t).Ends r' (.ok ⟨t, true⟩)
                { r' with types := r'.types ++ [(t.name, t)] })) ∧
      ∀ text s, freeze.Ends r (.ok text) s → ∀ later,
        let last := s.after later
        last.frozen = true ∧
          (∀ t, (register t).Ends last (.error (.registrationFrozen t.name)) last) ∧
          (∀ t ts, (merge (t :: ts)).Ends last (.error (.registrationFrozen t.name)) last) ∧
          freeze.Ends last (.error .alreadyFrozen) last ∧
          last.exported = s.exported ∧ s.exported = r.exported ∧
          last.fingerprint = .ok text ∧ last.computeFingerprint = .ok text := by
  intro r
  refine ⟨(sealed_after ops).frozen_iff, ?_, ?_⟩
  · intro hz x r'
    refine ⟨freeze_fails_iff hz, ?_⟩
    intro hfail
    obtain ⟨-, rfl⟩ := (freeze_fails_iff hz).mp hfail
    refine ⟨hz, ?_⟩
    intro t hh hfree
    exact register_of_free hz hh hfree
  · intro text s hfreeze later
    obtain ⟨hz, htext, rfl⟩ := freeze_ends_ok.mp hfreeze
    have hstart : FrozenAs text r.exported (r.sealWith text) := ⟨rfl, rfl, rfl⟩
    have hlast : FrozenAs text r.exported ((r.sealWith text).after later) :=
      after_induction hstart FrozenAs.step later
    refine ⟨hlast.frozen, ?_, ?_, freeze_of_frozen hlast.frozen, hlast.exported, rfl, ?_, ?_⟩
    · intro t
      exact register_of_frozen hlast.frozen
    · intro t ts
      exact merge_of_frozen hlast.frozen t ts
    · unfold fingerprint
      rw [hlast.fixed]
    · rw [computeFingerprint_congr hlast.exported]
      exact htext

/-- A type whose name cannot be written as that of a property. -/
def pairType : TypeDescriptor := { name := .tuple [.text "Point", .null], category := .object }

theorem pointType_exportable : pointType.Exportable := by
  refine ⟨⟨"Point", rfl⟩, .null, ?_, .nil, ?_⟩
  · intro v hv
    cases hv
  · intro row hrow
    cases hrow

theorem pointType_legible : pointType.Legible :=
  ⟨rfl, by simp [pointType], by simp [pointType]⟩

/-- A registry whose export cannot be written stays open; another is closed, and a mark does not
change its fingerprint. -/
theorem freeze_is_final_point :
    (∃ x s, freeze.Ends (empty.after [.register pairType]) (.error x) s ∧ s.frozen = false ∧
      (register pointType).Ends s (.ok ⟨pointType, true⟩) (empty.addAll [pairType, pointType])) ∧
      ∃ text s, freeze.Ends (empty.after [.register pointType]) (.ok text) s ∧
        (s.after [.markGenerated (.text "Point")]).fingerprint = .ok text := by
  constructor
  · obtain ⟨-, hopen, -⟩ := freeze_is_final [.register pairType]
    obtain ⟨hfails, hstays⟩ := hopen rfl .typeMismatch (empty.after [.register pairType])
    have hends := hfails.mpr ⟨rfl, rfl⟩
    obtain ⟨hz, haccepts⟩ := hstays hends
    exact ⟨_, _, hends, hz, haccepts pointType rfl rfl⟩
  · obtain ⟨-, -, hfinal⟩ := freeze_is_final [.register pointType]
    have hexportable : (empty.after [.register pointType]).Exportable := by
      constructor
      · exact .singleton "Point" pointType
      · intro row hrow
        rw [List.mem_singleton.mp hrow]
        exact pointType_exportable
    have hlegible : (empty.after [.register pointType]).Legible := by
      intro row hrow
      rw [List.mem_singleton.mp hrow]
      exact pointType_legible
    obtain ⟨text, htext⟩ := hexportable.exists_fingerprint hlegible
    have hends := freeze_ends_ok.mpr ⟨rfl, htext, rfl⟩
    obtain ⟨-, -, -, -, -, -, hfixed, -⟩ := hfinal text _ hends [.markGenerated (.text "Point")]
    exact ⟨text, _, hends, hfixed⟩

end Registry

end ModelSchema
