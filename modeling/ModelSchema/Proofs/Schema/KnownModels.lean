import Mathlib.Data.List.Forall2
import ModelSchema.Proofs.Schema.Warnings

/-!
# More known models

The names of the known models decide which references have fields. Main statement: where more models
are known a property fails as before, keeps the field that it had, and has the types that were made
for it among those made now, in the same order. An enumeration and a union stay as they were; an
object may have more fields.
-/

namespace ModelSchema

variable {α β : Type} {s : Surroundings} {o : Owner} {p : Property} {known' : List String}
  {levels : Nat} {declared : DeclaredType}

/-- A type becomes another that is the same but for more fields among those of an object. -/
structure TypeDescriptor.GrowsTo (t u : TypeDescriptor) : Prop where
  same : u = { t with fields := u.fields }
  fields : t.fields.Sublist u.fields
  fixed : t.category ≠ .object → u = t

theorem TypeDescriptor.GrowsTo.refl (t : TypeDescriptor) : t.GrowsTo t :=
  ⟨rfl, List.Sublist.refl _, fun _ => rfl⟩

/-- Types become others in the same order, with more types among them. -/
def GrowAlong : List TypeDescriptor → List TypeDescriptor → Prop :=
  List.SublistForall₂ TypeDescriptor.GrowsTo

theorem GrowAlong.refl (types : List TypeDescriptor) : GrowAlong types types :=
  List.sublistForall₂_iff.mpr
    ⟨types, List.forall₂_same.mpr fun t _ => .refl t, List.Sublist.refl _⟩

theorem GrowAlong.append {types types' more more' : List TypeDescriptor}
    (h : GrowAlong types types') (hmore : GrowAlong more more') :
    GrowAlong (types ++ more) (types' ++ more') := by
  obtain ⟨front, hfront, hsub⟩ := List.sublistForall₂_iff.mp h
  obtain ⟨back, hback, hsub'⟩ := List.sublistForall₂_iff.mp hmore
  exact List.sublistForall₂_iff.mpr
    ⟨front ++ back, List.rel_append hfront hback, hsub.append hsub'⟩

/-- A compiled property keeps its field and has its types among others. -/
structure Compiled.GrowsTo (c c' : Compiled) : Prop where
  field : ∀ f, c.field = some f → c'.field = some f
  types : GrowAlong c.types c'.types

theorem Compiled.GrowsTo.refl (c : Compiled) : c.GrowsTo c := ⟨fun _ => id, .refl c.types⟩

theorem Compiled.GrowsTo.of_leftOut (c : Compiled) : ({} : Compiled).GrowsTo c :=
  ⟨fun _ h => (Option.some_ne_none _ h.symm).elim, .nil⟩

/-- Two outcomes are the same failure, or results that are related. -/
inductive Alongside (R : α → β → Prop) : Except Failure α → Except Failure β → Prop
  | failure (e : Failure) : Alongside R (.error e) (.error e)
  | result {a : α} {b : β} : R a b → Alongside R (.ok a) (.ok b)

namespace Alongside

variable {α' β' : Type} {R : α → β → Prop} {S : α' → β' → Prop}

theorem of_eq {R : α → α → Prop} (hR : ∀ a, R a a) {x y : Except Failure α} (h : x = y) :
    Alongside R x y := by
  subst h
  cases x with
  | error e => exact .failure e
  | ok a => exact .result (hR a)

theorem bind {x : Except Failure α} {y : Except Failure β} {f : α → Except Failure α'}
    {g : β → Except Failure β'} (h : Alongside R x y)
    (hnext : ∀ a b, R a b → Alongside S (f a) (g b)) : Alongside S (x.bind f) (y.bind g) := by
  cases h with
  | failure e => exact .failure e
  | result hab => exact hnext _ _ hab

theorem map {x : Except Failure α} {y : Except Failure β} {f : α → α'} {g : β → β'}
    (h : Alongside R x y) (hnext : ∀ a b, R a b → S (f a) (g b)) :
    Alongside S (x.map f) (y.map g) := by
  cases h with
  | failure e => exact .failure e
  | result hab => exact .result (hnext _ _ hab)

theorem error_iff {x : Except Failure α} {y : Except Failure β} (h : Alongside R x y)
    (e : Failure) : x = .error e ↔ y = .error e := by
  cases h with
  | failure e' => simp only [Except.error.injEq]
  | result _ => simp only [reduceCtorEq]

theorem exists_of_ok {x : Except Failure α} {y : Except Failure β} {a : α} (h : Alongside R x y)
    (ha : x = .ok a) : ∃ b, y = .ok b ∧ R a b := by
  cases h with
  | failure e => cases ha
  | result hab =>
    cases ha
    exact ⟨_, rfl, hab⟩

end Alongside

/-- The surroundings with other known models. -/
def Surroundings.knowing (s : Surroundings) (known' : List String) : Surroundings :=
  { s with knownModels := known' }

section Growth

variable (h : s.knownModels ⊆ known')
include h

/-- A member of a union stays what it was. -/
theorem unionMember?_grows {part member : String}
    (hmember : unionMember? s.knownModels part = some member) :
    unionMember? known' part = some member := by
  unfold unionMember? at hmember ⊢
  cases hkind : ScalarKind.ofDeclared? part with
  | some kind =>
    rw [hkind] at hmember
    exact hmember
  | none =>
    rw [hkind] at hmember
    dsimp only at hmember ⊢
    split at hmember
    · rename_i hknown
      rw [if_pos (List.contains_iff_mem.mpr (h (List.contains_iff_mem.mp hknown)))]
      exact hmember
    · cases hmember

theorem unionMembers_grows {parts members : List String}
    (hmembers : unionMembers s.knownModels parts = .ok members) :
    unionMembers known' parts = .ok members := by
  rw [unionMembers_ok_iff] at hmembers ⊢
  exact hmembers.imp fun _ _ => unionMember?_grows h

theorem compileReference_grows (f : Field) :
    Alongside Compiled.GrowsTo (compileReference s o p f declared).outcome
      (compileReference (s.knowing known') o p f declared).outcome := by
  obtain ⟨c', hc'⟩ := exists_compileReference (s.knowing known') o p f declared
  -- what is left out may become anything, so only what has a field is looked at
  have hleaveOut : ∀ label, Alongside Compiled.GrowsTo (leaveOut s o p label).outcome
      (compileReference (s.knowing known') o p f declared).outcome := by
    intro label
    rw [outcome_leaveOut, hc']
    exact .result (.of_leftOut c')
  rw [compileReference]
  split
  · rename_i hunion
    split
    · exact hleaveOut _
    · rename_i members hmembers
      have hmembers' : unionMembers (s.knowing known').knownModels declared.referenceNames =
          .ok members := unionMembers_grows h hmembers
      rw [compileReference, if_pos hunion, hmembers']
      exact .result (.refl _)
  · rename_i hunion
    split
    · rename_i hknown
      have hknown' : (s.knowing known').knownModels.contains declared.label = true :=
        List.contains_iff_mem.mpr (h (List.contains_iff_mem.mp hknown))
      rw [compileReference, if_neg hunion, if_pos hknown']
      exact .result (.refl _)
    · exact hleaveOut _

theorem compileWithin_flat_grows (hflat : p.IsFlat) :
    Alongside Compiled.GrowsTo (compileWithin s levels o p).outcome
      (compileWithin (s.knowing known') levels o p).outcome := by
  cases hflat.leaf with
  | deprecated _ hcompile | array _ _ hcompile =>
    rw [hcompile, hcompile]
    exact .result (.refl _)
  | scalar _ _ _ hcompile =>
    rw [hcompile, hcompile]
    exact .of_eq .refl (compileScalar_outcome_congr ..)
  | reference _ _ _ hcompile =>
    rw [hcompile, hcompile]
    exact compileReference_grows h _

end Growth

theorem compileAll_grows {compile compile' : Property → Traced Compiled} {props : List Property}
    (hall : ∀ q ∈ props,
      Alongside Compiled.GrowsTo (compile q).outcome (compile' q).outcome) :
    Alongside (fun made made' => made.1.Sublist made'.1 ∧ GrowAlong made.2 made'.2)
      (compileAll compile props).outcome (compileAll compile' props).outcome := by
  induction props with
  | nil => exact .result ⟨List.Sublist.refl _, .refl _⟩
  | cons q props ih =>
    rw [compileAll, compileAll, Traced.outcome_bind, Traced.outcome_bind]
    refine (hall q List.mem_cons_self).bind fun c c' hc => ?_
    rw [Traced.outcome_bind, Traced.outcome_bind]
    refine (ih fun q' hq' => hall q' (List.mem_cons_of_mem _ hq')).bind ?_
    rintro ⟨fields, types⟩ ⟨fields', types'⟩ ⟨hfields, htypes⟩
    refine .result ⟨?_, hc.types.append htypes⟩
    cases hf : c.field with
    | none =>
      cases c'.field with
      | none => exact hfields
      | some f' => exact hfields.cons _
    | some f =>
      rw [hc.field f hf]
      exact hfields.cons_cons _

theorem anonymous_grows (owner : String) (field description : Value)
    {fields fields' : List (Value × Field)} (h : fields.Sublist fields') :
    (TypeDescriptor.anonymous owner field description fields).GrowsTo
      (.anonymous owner field description fields') :=
  ⟨rfl, h, fun hcategory => absurd rfl hcategory⟩

theorem compileWithin_grows (h : s.knownModels ⊆ known') :
    Alongside Compiled.GrowsTo (compileWithin s levels o p).outcome
      (compileWithin (s.knowing known') levels o p).outcome := by
  induction levels using Nat.strongRecOn generalizing o p with
  | ind levels ih =>
    rcases p.isFlat_or_opens with hflat | ⟨raw, name, hidden, ho⟩
    · exact compileWithin_flat_grows h hflat
    · cases hr : Property.ofMapping raw with
      | error e =>
        rw [compileWithin_opens ho, compileWithin_opens ho, hr]
        exact .failure e
      | ok rows =>
        by_cases hne : rows = []
        · rw [hne] at hr
          rw [outcome_of_empty ho hr, outcome_of_empty ho hr]
          exact .result (.refl _)
        · cases levels with
          | zero =>
            rw [outcome_without_levels ho hr hne, outcome_without_levels ho hr hne]
            exact .failure _
          | succ levels =>
            rw [outcome_with_levels ho hr hne, outcome_with_levels ho hr hne]
            refine (compileAll_grows fun q _ => ih levels (Nat.lt_succ_self levels)).map ?_
            rintro made made' ⟨hfields, htypes⟩
            refine ⟨fun _ => id, htypes.append ?_⟩
            exact .cons (anonymous_grows o.name p.name name hfields) .nil

/-- Knowing more models only adds. A property fails with more known models exactly as it fails with
fewer. Where it compiles, a field that it has with fewer it has with more, and each type made for it
with fewer is made with more, in the same order: the same if it is an enumeration or a union, and if
it is an object, the same but for more fields, among which the old ones stand in their order. -/
theorem compileProperty_grows (s : Surroundings) (known' : List String) (o : Owner) (p : Property)
    (h : s.knownModels ⊆ known') :
    let x := (compileProperty s o p).outcome
    let x' := (compileProperty (s.knowing known') o p).outcome
    (∀ e, x = .error e ↔ x' = .error e) ∧
      ∀ c, x = .ok c → ∃ c', x' = .ok c' ∧ (∀ f, c.field = some f → c'.field = some f) ∧
        List.SublistForall₂ TypeDescriptor.GrowsTo c.types c'.types := by
  intro x x'
  have hgrows : Alongside Compiled.GrowsTo x x' := compileWithin_grows h
  refine ⟨hgrows.error_iff, fun c hc => ?_⟩
  obtain ⟨c', hc', hcc'⟩ := hgrows.exists_of_ok hc
  exact ⟨c', hc', hcc'.field, hcc'.types⟩

/-- Once its sender and all of its payers are known, the object of a parcel has fields for them, and
the union of the payers stands in front of it. -/
theorem compileProperty_grows_parcel :
    let s : Surroundings := { knownModels := ["Order"] }
    let known' := ["Ghost", "Imp", "Order"]
    let order : Owner := { name := "Order" }
    let x := (compileProperty s order parcelProperty).outcome
    let x' := (compileProperty (s.knowing known') order parcelProperty).outcome
    s.knownModels ⊆ known' ∧
      ∃ c c', x = .ok c ∧ x' = .ok c' ∧ c.types.map (·.name.plain) = ["Order_parcel"] ∧
        c'.types.map (·.name.plain) = ["Order_parcel_payer", "Order_parcel"] ∧
        (∀ f, c.field = some f → c'.field = some f) ∧
        List.SublistForall₂ TypeDescriptor.GrowsTo c.types c'.types := by
  intro s known' order x x'
  have hsub : s.knownModels ⊆ known' := by decide
  have hcompiles : x.isOk = true := by decide +kernel
  have hnames : (Compiled.ofOutcome x).types.map (·.name.plain) = ["Order_parcel"] := by
    decide +kernel
  have hnames' : (Compiled.ofOutcome x').types.map (·.name.plain) =
      ["Order_parcel_payer", "Order_parcel"] := by
    decide +kernel
  obtain ⟨c, hc⟩ := exists_of_isOk hcompiles
  obtain ⟨-, hok⟩ := compileProperty_grows s known' order parcelProperty hsub
  obtain ⟨c', hc', hfield, htypes⟩ := hok c hc
  rw [hc] at hnames
  have hx' : x' = .ok c' := hc'
  rw [hx'] at hnames'
  exact ⟨hsub, c, c', hc, hx', hnames, hnames', hfield, htypes⟩

end ModelSchema
