import Mathlib.Data.List.Forall2
import ModelSchema.Proofs.Schema.Consistency
import ModelSchema.Proofs.Schema.Unlimited
import ModelSchema.Proofs.Schema.Warnings

/-!
# Deprecated declarations

A deprecated declaration has no field and no warning, whatever its type. Main statement: a
declaration compiles to the same with and without the deprecated ones inside it, at any depth, as
long as no structure loses all of its properties. The warnings are the same, too, but for those
about a list of lists, which call the type of the items by all that it declares.
-/

namespace ModelSchema

variable {α β : Type} {s : Surroundings} {o : Owner} {p p' q q' : Property} {c : Compiled}
  {levels : Nat} {t t' : DeclaredType} {raw raw' name name' : Value} {hidden hidden' : List Value}
  {rows rows' : List (Value × Property)} {R R' : Property → Property → Prop}
  {props props' : List Property}

/-- Some of the deprecated declarations of a list are gone, and each other one has become another in
its place. -/
inductive Shedding (R : Property → Property → Prop) : List Property → List Property → Prop
  | nil : Shedding R [] []
  | keep {q q' : Property} {rest rest' : List Property} :
    R q q' → Shedding R rest rest' → Shedding R (q :: rest) (q' :: rest')
  | drop {q : Property} {rest rest' : List Property} :
    q.deprecated = true → Shedding R rest rest' → Shedding R (q :: rest) rest'

theorem Shedding.imp_of_mem (h : Shedding R props props')
    (hR : ∀ q ∈ props, ∀ q', R q q' → R' q q') : Shedding R' props props' := by
  induction h with
  | nil => exact .nil
  | keep hq _ ih =>
    exact .keep (hR _ List.mem_cons_self _ hq) (ih fun q hq => hR q (List.mem_cons_of_mem _ hq))
  | drop hd _ ih => exact .drop hd (ih fun q hq => hR q (List.mem_cons_of_mem _ hq))

/-- A declared type becomes another by what happens to the structures inside it: deprecated
properties go, and the others change by `R`. A structure that has properties has one that is not
deprecated. -/
inductive DeclaredType.Sheds (R : Property → Property → Prop) : DeclaredType → DeclaredType → Prop
  | same (t : DeclaredType) : Sheds R t t
  | listOf {t t' : DeclaredType} : Sheds R t t' → Sheds R (.listOf t) (.listOf t')
  | embedded {raw raw' name : Value} {hidden : List Value} {rows rows' : List (Value × Property)} :
    Property.ofMapping raw = .ok rows → Property.ofMapping raw' = .ok rows' →
      (rows ≠ [] → ∃ row ∈ rows, row.2.deprecated = false) →
        Shedding R (rows.map (·.2)) (rows'.map (·.2)) →
          Sheds R (.embedded raw name hidden) (.embedded raw' name hidden)

theorem DeclaredType.Sheds.mono (h : t.Sheds R t') (hR : ∀ q q', R q q' → R' q q') :
    t.Sheds R' t' := by
  induction h with
  | same t => exact .same t
  | listOf _ ih => exact .listOf ih
  | embedded hr hr' hlive hrows => exact .embedded hr hr' hlive (hrows.imp_of_mem fun q _ => hR q)

/-- A relation between declarations that differ in their types only, and there in deprecated
declarations and in declarations that are related again. -/
def Property.ShedsBy (R : Property → Property → Prop) : Prop :=
  ∀ q q', R q q' → q' = { q with type := q'.type } ∧ q.type.Sheds R q'.type

/-- A declaration is another without deprecated ones inside it. Declarations may stand inside
themselves, so this holds as soon as nothing speaks against it at any depth. -/
def Property.Sheds (p p' : Property) : Prop := ∃ R, Property.ShedsBy R ∧ R p p'

theorem Property.Sheds.refl (p : Property) : p.Sheds p := by
  refine ⟨Eq, fun q q' h => ?_, rfl⟩
  subst h
  exact ⟨rfl, .same _⟩

/-- A type stays, or declares a structure, by itself or in a list, or is a list of lists. -/
theorem DeclaredType.Sheds.cases (h : t.Sheds R t') :
    t' = t ∨
      (∃ raw raw' name hidden rows rows',
        t.itemType = .embedded raw name hidden ∧ t'.itemType = .embedded raw' name hidden ∧
          Property.ofMapping raw = .ok rows ∧ Property.ofMapping raw' = .ok rows' ∧
          (rows ≠ [] → ∃ row ∈ rows, row.2.deprecated = false) ∧
          Shedding R (rows.map (·.2)) (rows'.map (·.2))) ∨
      ∃ item item', t = .listOf (.listOf item) ∧ t' = .listOf (.listOf item') ∧
        item.Sheds R item' := by
  cases h with
  | same t => exact .inl rfl
  | embedded hr hr' hlive hrows =>
    exact .inr (.inl ⟨_, _, _, _, _, _, rfl, rfl, hr, hr', hlive, hrows⟩)
  | listOf h =>
    cases h with
    | same t => exact .inl rfl
    | embedded hr hr' hlive hrows =>
      exact .inr (.inl ⟨_, _, _, _, _, _, rfl, rfl, hr, hr', hlive, hrows⟩)
    | listOf h => exact .inr (.inr ⟨_, _, rfl, rfl, h⟩)

/-- Two computations have the same outcome and warnings that are related one by one. -/
structure Traced.Alike (E : Event → Event → Prop) (x y : Traced α) : Prop where
  outcome : y.outcome = x.outcome
  warnings : List.Forall₂ E x.warnings y.warnings

section Alike

variable {E : Event → Event → Prop} (hE : ∀ e, E e e)
include hE

theorem Traced.Alike.refl (x : Traced α) : x.Alike E x :=
  ⟨rfl, List.forall₂_same.mpr fun e _ => hE e⟩

omit hE in
theorem Traced.Alike.bind {x y : Traced α} {f g : α → Traced β} (h : x.Alike E y)
    (hnext : ∀ a, (f a).Alike E (g a)) : (x >>= f).Alike E (y >>= g) := by
  obtain ⟨houtcome, hwarnings⟩ := h
  constructor
  · rw [Traced.outcome_bind, Traced.outcome_bind, houtcome]
    exact congrArg x.outcome.bind (funext fun a => (hnext a).outcome)
  · cases hx : x.outcome with
    | error e =>
      rw [Traced.warnings_bind_of_error hx, Traced.warnings_bind_of_error (houtcome.trans hx)]
      exact hwarnings
    | ok a =>
      rw [Traced.warnings_bind_of_ok hx, Traced.warnings_bind_of_ok (houtcome.trans hx)]
      exact List.rel_append hwarnings (hnext a).warnings

end Alike

/-- A model is another without deprecated declarations, its own or at any depth. -/
def Model.Sheds (m m' : Model) : Prop :=
  m' = { m with properties := m'.properties } ∧
    Shedding Property.Sheds (m.properties.map (·.2)) (m'.properties.map (·.2))

namespace Generator

open Procedure

variable {g g' : Generator} {m m' : Model} {models' : List Model} {fields : List (Value × Field)}

/-- The generator for other models, with all that has been done. -/
def withModels (g : Generator) (models' : List Model) : Generator := { g with models := models' }

section Mirrored

variable (hmodels : List.Forall₂ Model.Sheds g.models models')
include hmodels

end Mirrored

/-- Where one procedure ends from a state, the other ends alike from the state with other models. -/
def Mirrored (models' : List Model) (g : Generator) {α : Type} (p p' : Procedure Generator α) :
    Prop :=
  ∀ x g', p.Ends g x g' → p'.Ends (g.withModels models') x (g'.withModels models') ∧
    g'.models = g.models ∧ g'.settings = g.settings

namespace Mirrored

variable {x y : Traced α} {p p' : Procedure Generator α} {f f' : α → Procedure Generator β}

theorem pure (a : α) : Mirrored models' g (Pure.pure a : Procedure Generator α) (Pure.pure a) := by
  intro x g' h
  obtain ⟨rfl, rfl⟩ := ends_pure.mp h
  exact ⟨ends_pure.mpr ⟨rfl, rfl⟩, rfl, rfl⟩

theorem liftM (h : y.outcome = x.outcome) :
    Mirrored models' g (MonadLift.monadLift x : Procedure Generator α)
      (MonadLift.monadLift y : Procedure Generator α) := by
  intro z g' hx
  obtain ⟨rfl, rfl⟩ := ends_liftM.mp hx
  exact ⟨ends_liftM.mpr ⟨h, rfl⟩, rfl, rfl⟩

theorem onRegistry (p : Procedure Registry α) :
    Mirrored models' g (Generator.onRegistry p) (Generator.onRegistry p) := by
  intro x g' h
  obtain ⟨r, hr, rfl⟩ := onRegistry_ends.mp h
  exact ⟨onRegistry_ends.mpr ⟨r, hr, rfl⟩, rfl, rfl⟩

theorem bind (h : Mirrored models' g p p')
    (hnext : ∀ a g', g'.models = g.models → g'.settings = g.settings →
      Mirrored models' g' (f a) (f' a)) : Mirrored models' g (p >>= f) (p' >>= f') := by
  intro x g' hx
  cases x with
  | ok b =>
    obtain ⟨a, t, hp, hf⟩ := ends_bind_ok.mp hx
    obtain ⟨hp', hmodels, hsettings⟩ := h _ _ hp
    obtain ⟨hf', hmodels', hsettings'⟩ := hnext a t hmodels hsettings _ _ hf
    exact ⟨hp'.bind hf', hmodels'.trans hmodels, hsettings'.trans hsettings⟩
  | error e =>
    rcases ends_bind_error.mp hx with hp | ⟨a, t, hp, hf⟩
    · obtain ⟨hp', hsame⟩ := h _ _ hp
      exact ⟨ends_bind_error.mpr (.inl hp'), hsame⟩
    · obtain ⟨hp', hmodels, hsettings⟩ := h _ _ hp
      obtain ⟨hf', hmodels', hsettings'⟩ := hnext a t hmodels hsettings _ _ hf
      exact ⟨hp'.bind hf', hmodels'.trans hmodels, hsettings'.trans hsettings⟩

theorem modify (change : Generator → Generator)
    (hchange : ∀ g : Generator, change (g.withModels models') = (change g).withModels models')
    (hmodels : (change g).models = g.models) (hsettings : (change g).settings = g.settings) :
    Mirrored models' g (Procedure.modify change) (Procedure.modify change) := by
  intro x g' h
  obtain ⟨rfl, rfl⟩ := ends_modify.mp h
  exact ⟨ends_modify.mpr ⟨rfl, hchange g⟩, hmodels, hsettings⟩

end Mirrored

end Generator

end ModelSchema
