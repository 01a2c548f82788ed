import Mathlib.Logic.ExistsUnique
import ModelSchema.Proofs.Schema.Compilation

/-!
# The shapes of property fields

A field starts as what its property declares and is filled in once its type is known. Main
statement: whatever the declared type, its list, the listed values and the default generator come
to, the field that results is a scalar, refers to a type that was made for it last, or refers to a
model of the run, and nothing of one of these shapes is left on a field of another.
-/

namespace ModelSchema

variable {s : Surroundings} {o : Owner} {p : Property} {f : Field} {c : Compiled}
  {types : List TypeDescriptor} {typeName : String}

/-- A field says of itself what the property of an owner declares, and nothing that only the fields
of relations say. -/
structure Field.Declares (f : Field) (o : Owner) (p : Property) : Prop where
  name_eq : f.name = p.name
  isRequired_eq : f.isRequired = p.required
  isHidden_eq : f.isHidden = o.hidden.contains p.name
  description_eq : f.description = p.description
  isList_iff : f.isList = true ↔ p.type = .untypedArray ∨ ∃ item, p.type = .listOf item
  isRelation_eq : f.isRelation = false
  isConnection_eq : f.isConnection = false
  relationKind_eq : f.relationKind = none
  embed_eq : f.embed = false
  arguments_eq : f.arguments = []

theorem DeclaredType.isList_iff (t : DeclaredType) :
    t.isList = true ↔ t = .untypedArray ∨ ∃ item, t = .listOf item := by
  cases t <;> simp [DeclaredType.isList]

theorem Property.bareField_declares (p : Property) (o : Owner) : (p.bareField o).Declares o p :=
  ⟨rfl, rfl, rfl, rfl, p.type.isList_iff, rfl, rfl, rfl, rfl, rfl⟩

theorem Field.Declares.filled (h : f.Declares o p) (isScalar : Bool) (kind : Option ScalarKind)
    (typeName nestedTypeName : Option String) :
    { f with isScalar, scalarKind := kind, typeName, nestedTypeName : Field }.Declares o p := by
  obtain ⟨hname, hrequired, hhidden, hdescription, hlist, hrelation, hconnection, hkind, hembed,
    harguments⟩ := h
  exact ⟨hname, hrequired, hhidden, hdescription, hlist, hrelation, hconnection, hkind, hembed,
    harguments⟩

/-- The shapes of the field of a property: a scalar, a type made for it, or a model. -/
inductive FieldShape where
  | scalar | derived | reference

/-- A type that can be made for a field. -/
def TypeDescriptor.IsMade (t : TypeDescriptor) : Prop :=
  t.category = .enum ∨ t.category = .union ∨ t.category = .object ∧ t.input = true

/-- A field with the types made for it has a shape; `typeName` is the name of a type made for the
field itself. -/
def FieldShape.Fits (s : Surroundings) (typeName : String) (f : Field)
    (types : List TypeDescriptor) : FieldShape → Prop
  | .scalar => f.isScalar = true ∧
    (∃ kind, f.scalarKind = some kind ∧ f.typeName = some kind.name) ∧
      f.nestedTypeName = none ∧ types = []
  | .derived => f.isScalar = false ∧ f.scalarKind = none ∧ f.typeName = some typeName ∧
    f.nestedTypeName = some typeName ∧
      ∃ front t, types = front ++ [t] ∧ t.name = .text typeName ∧ t.IsMade
  | .reference => f.isScalar = false ∧ f.scalarKind = none ∧
    (∃ model ∈ s.knownModels, f.typeName = some model) ∧ f.nestedTypeName = none ∧ types = []

/-- The shape that a field has if it has any, as its flags tell. -/
def FieldShape.of (f : Field) : FieldShape :=
  if f.isScalar then .scalar else if f.nestedTypeName.isSome then .derived else .reference

theorem FieldShape.Fits.eq_of {shape : FieldShape} (h : shape.Fits s typeName f types) :
    shape = .of f := by
  unfold FieldShape.of
  cases shape with
  | scalar =>
    obtain ⟨hscalar, -⟩ := h
    rw [if_pos hscalar]
  | derived =>
    obtain ⟨hscalar, -, -, hnested, -⟩ := h
    rw [hscalar, hnested, if_neg Bool.false_ne_true]
    rfl
  | reference =>
    obtain ⟨hscalar, -, -, hnested, -⟩ := h
    rw [hscalar, hnested, if_neg Bool.false_ne_true]
    rfl

/-- A property that is left out makes no types; or else its field declares what the property does
and, with the types made for it, has one shape. -/
def Compiled.Shaped (s : Surroundings) (o : Owner) (p : Property) (c : Compiled) : Prop :=
  (c.field = none → c.types = []) ∧
    ∀ f, c.field = some f → f.Declares o p ∧
      ∃! shape : FieldShape, shape.Fits s (derivedName o.name p.name) f c.types

theorem Compiled.Shaped.of_empty : Compiled.Shaped s o p {} := by
  constructor
  · intro _
    rfl
  · intro f hf
    cases hf

theorem Compiled.Shaped.of_fits (shape : FieldShape) (hdeclares : f.Declares o p)
    (hfits : shape.Fits s (derivedName o.name p.name) f types) :
    Compiled.Shaped s o p { field := some f, types } := by
  constructor
  · intro hnone
    cases hnone
  · intro g hg
    cases hg
    refine ⟨hdeclares, shape, hfits, ?_⟩
    intro other hother
    exact hother.eq_of.trans hfits.eq_of.symm

/-- A field of the last of the types that are made for it has the shape of a derived one. -/
theorem FieldShape.fits_derived (front : List TypeDescriptor) {t : TypeDescriptor}
    (hname : t.name = .text (derivedName o.name p.name)) (hmade : t.IsMade) :
    FieldShape.derived.Fits s (derivedName o.name p.name)
      ((p.bareField o).withDerived (derivedName o.name p.name)) (front ++ [t]) :=
  ⟨rfl, rfl, rfl, rfl, front, t, rfl, hname, hmade⟩

theorem Compiles.shaped (h : Compiles s o p c) : c.Shaped s o p := by
  have hbare := p.bareField_declares o
  cases h with
  | deprecated _ => exact .of_empty
  | unresolved _ => exact .of_empty
  | scalar kind _ =>
    apply Compiled.Shaped.of_fits .scalar (hbare.filled true (some kind) (some kind.name) none)
    exact ⟨rfl, ⟨kind, rfl, rfl⟩, rfl, rfl⟩
  | enumeration kind _ _ =>
    apply Compiled.Shaped.of_fits .derived (hbare.filled false none _ _)
    exact FieldShape.fits_derived [] rfl (.inl rfl)
  | union _ _ _ =>
    apply Compiled.Shaped.of_fits .derived (hbare.filled false none _ _)
    exact FieldShape.fits_derived [] rfl (.inr (.inl rfl))
  | @reference _ _ model _ _ hknown =>
    apply Compiled.Shaped.of_fits .reference (hbare.filled false none (some model) none)
    exact ⟨rfl, rfl, ⟨model, hknown, rfl⟩, rfl, rfl⟩
  | nested result _ _ _ _ _ _ =>
    apply Compiled.Shaped.of_fits .derived (hbare.filled false none _ _)
    exact FieldShape.fits_derived _ rfl (.inr (.inr ⟨rfl, rfl⟩))

/-- Whatever a property compiles to has one of the three shapes, or is nothing at all. -/
theorem compileProperty_shaped (h : (compileProperty s o p).outcome = .ok c) : c.Shaped s o p :=
  (Compiles.of_compileProperty h).shaped

/-- A list of marks, of which the values are listed, and which is hidden. -/
def marksProperty : Property :=
  { name := .text "marks", type := .listOf (.scalar "number"), required := true
    enum := some [.int 1, .int 2, .int 1] }

theorem compileProperty_shaped_marks :
    let report : Owner := { name := "Report", hidden := [.text "marks"] }
    ∃ c, (compileProperty {} report marksProperty).outcome = .ok c ∧ c.field.isSome = true ∧
      c.Shaped {} report marksProperty := by
  intro report
  have hfield :
      (Compiled.ofOutcome (compileProperty {} report marksProperty).outcome).field.isSome =
        true := by
    decide +kernel
  cases hc : (compileProperty {} report marksProperty).outcome with
  | error e =>
    rw [hc] at hfield
    cases hfield
  | ok c =>
    rw [hc] at hfield
    exact ⟨c, rfl, hfield, compileProperty_shaped hc⟩

end ModelSchema
