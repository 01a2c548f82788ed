import ModelSchema.Digest.Sha256
import ModelSchema.Json.Writer
import ModelSchema.Procedure
import ModelSchema.Schema.Export
import ModelSchema.Text.Utf8
import ModelSchema.Value.Access

/-!
# The type registry

A registry holds the types of a schema by name. Types are only ever added: the same type may be
registered again, a different one under a taken name is refused. Freezing a registry fixes it and
its fingerprint, a digest of all that it exports; from then on types can only be marked as consumed.
-/

namespace ModelSchema

structure Registry where
  types : List (Value × TypeDescriptor) := []
  frozen : Bool := false
  /-- The fingerprint at the time of freezing. -/
  fixedFingerprint : Option String := none

/-- The outcome of a registration: the type that the registry holds, and whether it is the given
one. -/
structure Registration where
  stored : TypeDescriptor
  isNew : Bool

namespace Registry

def empty : Registry := {}

/-- The names of the types in the order of their registration. -/
def names (r : Registry) : List Value := r.types.map (·.1)

/-- The type with a name. -/
def find? (r : Registry) (name : Value) : Option TypeDescriptor := Table.find? name r.types

/-- Looks a name up; only values that cannot change are names. -/
def lookup (r : Registry) (name : Value) : Except Failure (Option TypeDescriptor) :=
  if name.isHashable then .ok (r.find? name) else .error .typeMismatch

/-- The type with a name that has to be there. -/
def fetch (r : Registry) (name : Value) : Except Failure TypeDescriptor :=
  (r.lookup name).bind fun found => match found with
    | some t => .ok t
    | none => .error .missingKey

/-- The exported form of all types, by name. -/
def exported (r : Registry) : Value := .mapping (r.types.map fun row => (row.1, row.2.exported))

/-- Why a registry has no fingerprint. -/
def exportFailure : Json.WriteError → Failure
  | .circular => .circularReference
  | .undefinedComparison => .undefinedComparison
  | .longInteger => .notInteger .integerTooLong
  | _ => .typeMismatch

/-- The text that the fingerprint is a digest of. -/
def canonicalText (r : Registry) : Except Failure (List Char) :=
  match Json.canonicalText r.exported with
  | .ok text => .ok text
  | .error e => .error (exportFailure e)

/-- The fingerprint of what a registry exports. -/
def computeFingerprint (r : Registry) : Except Failure String :=
  r.canonicalText.map fun text => "sha256:" ++ Digest.sha256Hex (Text.asciiBytes text)

/-- The fingerprint of a registry; that of a frozen registry is fixed. -/
def fingerprint (r : Registry) : Except Failure String :=
  match r.fixedFingerprint with
  | some text => .ok text
  | none => r.computeFingerprint

/-- Adds a type to the registry, unless the same type is there. -/
def register (t : TypeDescriptor) : Procedure Registry Registration := do
  let r ← Procedure.get
  if r.frozen then Traced.fail (.registrationFrozen t.name)
  else
    match ← (r.lookup t.name : Traced _) with
    | some existing =>
      if existing.signals t then Traced.fail .undefinedComparison
      else if existing.same t then pure ⟨existing, false⟩
      else Traced.fail (.nameTaken t.name existing.category)
    | none => do
      Procedure.modify fun r => { r with types := r.types ++ [(t.name, t)] }
      Traced.report (.typeRegistered t.name t.category)
      pure ⟨t, true⟩

/-- Registers types in order up to the first that is refused. -/
def merge : List TypeDescriptor → Procedure Registry Unit
  | [] => pure ()
  | t :: rest => do
    let _ ← register t
    merge rest

/-- Marks the type with a name as consumed. -/
def markGenerated (name : Value) : Procedure Registry Unit := do
  let r ← Procedure.get
  let t ← (r.fetch name : Traced _)
  Procedure.modify fun r => { r with types := Table.put name { t with generated := true } r.types }

/-- Fixes the registry and its fingerprint. -/
def freeze : Procedure Registry String := do
  let r ← Procedure.get
  if r.frozen then Traced.fail .alreadyFrozen
  else
    let text ← (r.computeFingerprint : Traced _)
    Procedure.modify fun r => { r with frozen := true, fixedFingerprint := some text }
    Traced.report (.registryFrozen r.types.length text)
    pure text

end Registry

end ModelSchema
