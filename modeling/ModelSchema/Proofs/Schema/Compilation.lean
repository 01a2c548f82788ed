import Mathlib.Data.List.Forall2
import ModelSchema.Proofs.Execution
import ModelSchema.Schema.PropertyField

/-!
# What properties compile to

A property that compiles either is left out or has a field of one of five shapes: scalar, of an
enumeration or a union made for it, of a model, or of an anonymous structure, whose properties
compile in their turn. `Compiles` says so as a relation, without the levels that may open and
without the events on the way; what holds of compiled properties is proved by induction on it.
-/

namespace ModelSchema

/-- The field of a property before its type is looked at. -/
def Property.bareField (p : Property) (o : Owner) : Field :=
  { Field.ofProperty o p with isList := p.type.isList }

/-- The result of a compilation, empty if it has none. -/
def Compiled.ofOutcome : Except Failure Compiled → Compiled
  | .ok c => c
  | .error _ => {}

/-- The rows of the fields that properties compile to. -/
def fieldRows (result : Property → Compiled) (props : List Property) : List (Value × Field) :=
  props.filterMap fun p => (result p).field.map fun f => (f.name, f)

/-- The types that are made for properties. -/
def madeTypes (result : Property → Compiled) (props : List Property) : List TypeDescriptor :=
  props.flatMap fun p => (result p).types

theorem mem_fieldRows {result : Property → Compiled} {props : List Property} {row : Value × Field} :
    row ∈ fieldRows result props ↔
      ∃ p ∈ props, (result p).field = some row.2 ∧ row.1 = row.2.name := by
  obtain ⟨key, f⟩ := row
  simp only [fieldRows, List.mem_filterMap, Option.map_eq_some_iff, Prod.mk.injEq]
  constructor
  · rintro ⟨p, hp, _, hf, rfl, rfl⟩
    exact ⟨p, hp, hf, rfl⟩
  · rintro ⟨p, hp, hf, rfl⟩
    exact ⟨p, hp, f, hf, rfl, rfl⟩

theorem mem_madeTypes {result : Property → Compiled} {props : List Property} {t : TypeDescriptor} :
    t ∈ madeTypes result props ↔ ∃ p ∈ props, t ∈ (result p).types := List.mem_flatMap

theorem compileAll_ok_iff {compile : Property → Traced Compiled} {props : List Property}
    {rows : List (Value × Field)} {types : List TypeDescriptor} :
    (compileAll compile props).outcome = .ok (rows, types) ↔
      (∀ p ∈ props, ∃ c, (compile p).outcome = .ok c) ∧
        rows = fieldRows (fun p => .ofOutcome (compile p).outcome) props ∧
          types = madeTypes (fun p => .ofOutcome (compile p).outcome) props := by
  induction props generalizing rows types with
  | nil => simp [compileAll, fieldRows, madeTypes, eq_comm]
  | cons p props ih =>
    simp only [compileAll, Traced.bind_eq_ok, Traced.outcome_pure, Except.ok.injEq, Prod.mk.injEq,
      Prod.exists, List.forall_mem_cons]
    constructor
    · rintro ⟨c, hc, rows', types', h, rfl, rfl⟩
      obtain ⟨hall, rfl, rfl⟩ := ih.mp h
      refine ⟨⟨⟨c, hc⟩, hall⟩, ?_, ?_⟩
      · cases hf : c.field <;> simp [fieldRows, hc, Compiled.ofOutcome, hf]
      · simp [madeTypes, hc, Compiled.ofOutcome]
    · rintro ⟨⟨⟨c, hc⟩, hall⟩, rfl, rfl⟩
      refine ⟨c, hc, _, _, ih.mpr ⟨hall, rfl, rfl⟩, ?_, ?_⟩
      · cases hf : c.field <;> simp [fieldRows, hc, Compiled.ofOutcome, hf]
      · simp [madeTypes, hc, Compiled.ofOutcome]

/-- What a property of an owner compiles to, if it compiles. -/
inductive Compiles (s : Surroundings) : Owner → Property → Compiled → Prop
  | deprecated {o : Owner} {p : Property} : p.deprecated = true → Compiles s o p {}
  | unresolved {o : Owner} {p : Property} : p.deprecated = false → Compiles s o p {}
  | scalar {o : Owner} {p : Property} (kind : ScalarKind) :
    p.deprecated = false → Compiles s o p { field := (p.bareField o).withScalar kind }
  | enumeration {o : Owner} {p : Property} {v : Value} {values : List Value} (kind : ScalarKind) :
    p.deprecated = false → p.enum = some (v :: values) →
      Compiles s o p
        { field := (p.bareField o).withDerived (derivedName o.name p.name)
          types := [.enumeration o.name p.name (v :: values) kind] }
  | union {o : Owner} {p : Property} {members : List String} :
    p.deprecated = false → p.type.itemType.isUnion = true →
      unionMembers s.knownModels p.type.itemType.referenceNames = .ok members →
        Compiles s o p
          { field := (p.bareField o).withDerived (derivedName o.name p.name)
            types := [.unionOf o.name p.name members.eraseDups] }
  | reference {o : Owner} {p : Property} {name : String} :
    p.deprecated = false → p.type.itemType = .reference name → name ∈ s.knownModels →
      Compiles s o p { field := some { p.bareField o with typeName := some name } }
  | nested {o : Owner} {p : Property} {raw name : Value} {hidden : List Value}
      {rows : List (Value × Property)}
      (result : Property → Compiled) :
    p.deprecated = false → p.isTimestamp = false → p.type.itemType = .embedded raw name hidden →
      Property.ofMapping raw = .ok rows → rows ≠ [] →
        (∀ row ∈ rows, Compiles s (o.inside p.name hidden) row.2 (result row.2)) →
          Compiles s o p
            { field := (p.bareField o).withDerived (derivedName o.name p.name)
              types := madeTypes result (rows.map (·.2)) ++
                [.anonymous o.name p.name name (fieldRows result (rows.map (·.2)))] }

@[simp] theorem outcome_leaveOut (s : Surroundings) (o : Owner) (p : Property) (label : String) :
    (leaveOut s o p label).outcome = .ok {} := by
  rw [leaveOut]
  split <;> rfl

theorem compileScalar_outcome_congr (s s' : Surroundings) (o : Owner) (p : Property) (f : Field)
    (declared : DeclaredType) :
    (compileScalar s' o p f declared).outcome = (compileScalar s o p f declared).outcome := by
  rw [compileScalar, compileScalar, Traced.outcome_bind, Traced.outcome_bind]
  congr 1
  funext kind
  cases kind with
  | none => rw [outcome_leaveOut, outcome_leaveOut]
  | some kind => rfl

/-- A union has members if each of its parts contributes one, and these are its members. -/
theorem unionMembers_ok_iff {known parts members : List String} :
    unionMembers known parts = .ok members ↔
      List.Forall₂ (fun part member => unionMember? known part = some member) parts members := by
  induction parts generalizing members with
  | nil =>
    rw [List.forall₂_nil_left_iff, unionMembers, Except.ok.injEq]
    exact eq_comm
  | cons part parts ih =>
    rw [unionMembers, List.forall₂_cons_left_iff]
    cases unionMember? known part with
    | none => simp
    | some member =>
      constructor
      · intro h
        cases hrest : unionMembers known parts with
        | error first =>
          rw [hrest] at h
          cases h
        | ok rest =>
          rw [hrest] at h
          cases h
          exact ⟨member, rest, rfl, ih.mp hrest, rfl⟩
      · rintro ⟨_, rest, hsame, hrest, rfl⟩
        cases hsame
        rw [ih.mpr hrest]
        rfl

/-- A property that is no reference compiles unless its listed values cannot be told apart. -/
theorem compileScalar_error {s : Surroundings} {o : Owner} {p : Property} {f : Field}
    {declared : DeclaredType} {e : Failure}
    (h : (compileScalar s o p f declared).outcome = .error e) :
    e = .undefinedComparison ∧
      ∃ values, p.enum = some values ∧ Value.distinctSignals [] values = true := by
  have hkind : ∃ kind, (scalarKind? p declared).outcome = .ok kind := by
    unfold scalarKind?
    repeat' split
    all_goals exact ⟨_, rfl⟩
  obtain ⟨kind, hkind⟩ := hkind
  rw [compileScalar, Traced.outcome_bind, hkind] at h
  dsimp only [Except.bind] at h
  split at h
  · rw [outcome_leaveOut] at h
    cases h
  · split at h
    · rename_i v values he
      rw [Traced.outcome_bind, Traced.outcome_liftM, TypeDescriptor.buildEnumeration] at h
      split at h
      · cases h
        exact ⟨rfl, v :: values, he, ‹_›⟩
      · cases h
    · cases h

theorem exists_compileReference (s : Surroundings) (o : Owner) (p : Property) (f : Field)
    (declared : DeclaredType) : ∃ c, (compileReference s o p f declared).outcome = .ok c := by
  unfold compileReference
  repeat' split
  all_goals first | exact ⟨_, rfl⟩ | exact ⟨_, outcome_leaveOut s o p _⟩

theorem Compiles.of_compileScalar {s : Surroundings} {o : Owner} {p : Property}
    {declared : DeclaredType} {c : Compiled} (hd : p.deprecated = false)
    (h : (compileScalar s o p (p.bareField o) declared).outcome = .ok c) : Compiles s o p c := by
  obtain ⟨kind, -, h⟩ := Traced.bind_eq_ok.mp h
  cases kind with
  | none =>
    rw [outcome_leaveOut] at h
    cases h
    exact .unresolved hd
  | some kind =>
    dsimp only at h
    split at h
    · rename_i v values he
      obtain ⟨t, ht, h⟩ := Traced.bind_eq_ok.mp h
      cases h
      simp only [Traced.outcome_liftM, TypeDescriptor.buildEnumeration] at ht
      split at ht
      · simp at ht
      · cases ht
        exact .enumeration kind hd he
    · cases h
      exact .scalar kind hd

theorem Compiles.of_compileReference {s : Surroundings} {o : Owner} {p : Property} {name : String}
    {c : Compiled} (hd : p.deprecated = false) (ht : p.type.itemType = .reference name)
    (h : (compileReference s o p (p.bareField o) (.reference name)).outcome = .ok c) :
    Compiles s o p c := by
  rw [compileReference] at h
  split at h
  · rename_i hu
    split at h
    · rw [outcome_leaveOut] at h
      cases h
      exact .unresolved hd
    · rename_i members hm
      cases h
      rw [← ht] at hu hm
      exact .union hd hu hm
  · split at h
    · rename_i hk
      cases h
      exact .reference hd ht (by simpa [DeclaredType.label] using hk)
    · rw [outcome_leaveOut] at h
      cases h
      exact .unresolved hd

theorem Compiles.of_compileWithin {s : Surroundings} {levels : Nat} {o : Owner} {p : Property}
    {c : Compiled} (h : (compileWithin s levels o p).outcome = .ok c) : Compiles s o p c := by
  induction levels using Nat.strongRecOn generalizing o p c with
  | ind levels ih =>
    rw [compileWithin.eq_def] at h
    split at h
    · rename_i hd
      obtain ⟨_, -, h⟩ := Traced.bind_eq_ok.mp h
      cases h
      exact .deprecated hd
    · rename_i hd
      have hd : p.deprecated = false := by simpa using hd
      dsimp only at h
      split at h
      · cases h
        exact .scalar .json hd
      · split at h
        · rename_i raw name hidden ht
          split at h
          · exact .of_compileScalar hd h
          · rename_i hs
            obtain ⟨rows, hr, h⟩ := Traced.bind_eq_ok.mp h
            split at h
            · cases h
              exact .scalar .json hd
            · rename_i hne
              split at h
              · cases h
              · obtain ⟨⟨fields, types⟩, hc, h⟩ := Traced.bind_eq_ok.mp h
                obtain ⟨hall, rfl, rfl⟩ := compileAll_ok_iff.mp hc
                cases h
                refine .nested _ hd (by simpa using hs) ht hr (by simpa using hne)
                  fun row hrow => ?_
                obtain ⟨c, hc⟩ := hall row.2 (List.mem_map_of_mem hrow)
                rw [hc]
                exact ih _ (Nat.lt_succ_self _) hc
        · rename_i name ht
          split at h
          · exact .of_compileScalar hd h
          · exact .of_compileReference hd ht h
        · exact .of_compileScalar hd h

theorem Compiles.of_compileProperty {s : Surroundings} {o : Owner} {p : Property} {c : Compiled}
    (h : (compileProperty s o p).outcome = .ok c) : Compiles s o p c :=
  .of_compileWithin h

end ModelSchema
