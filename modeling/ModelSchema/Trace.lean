import ModelSchema.Failure

/-!
# Traces

What a compilation reports on its way: events, each with a level and a wording. A traced computation
has its events in the order in which they happened and then a result or a failure; the events before
a failure are kept.
-/

namespace ModelSchema

inductive Level where
  | debug | info | warning
  deriving DecidableEq

def Level.name : Level → String
  | .debug => "DEBUG"
  | .info => "INFO"
  | .warning => "WARNING"

inductive Event where
  | deprecatedSkipped (owner : String) (field : Value)
  /-- A default generator stands for no scalar. -/
  | generatorUnknown (generator : String)
  /-- A property is left out because its type is neither a scalar nor a known model. -/
  | typeUnresolved (owner : String) (field : Value) (label : String)
  /-- A relation is left out because its kind is not known. -/
  | relationSkipped (model : String) (key declaredKind : Value)
  | relationCompiled (relation : Relation)
  | typeRegistered (name : Value) (category : TypeCategory)
  | modelCompiled (name : String) (fields : Nat)
  | modelRepeated (name : String)
  | registryFrozen (types : Nat) (fingerprint : String)
  | registryBuilt (models : Nat)

namespace Event

def level : Event → Level
  | .typeUnresolved .. | .relationSkipped .. | .modelRepeated _ => .warning
  | .registryFrozen .. | .registryBuilt _ => .info
  | _ => .debug

def message : Event → String
  | .deprecatedSkipped owner field => "Skipping deprecated property " ++ owner ++ "." ++ field.plain
  | .generatorUnknown generator =>
    "Default generator '" ++ generator ++ "' has no scalar mapping, using declared type"
  | .typeUnresolved owner field label =>
    "Skipping " ++ owner ++ "." ++ field.plain ++ ": type '" ++ label ++
      "' is neither a scalar nor a known model"
  | .relationSkipped model key declaredKind =>
    "Skipping relation " ++ model ++ "." ++ key.plain ++ ": " ++
      ((Failure.unknownRelationKind declaredKind).message?.getD "")
  | .relationCompiled relation =>
    "Compiling relation " ++ relation.source ++ "." ++ relation.name ++ " -> " ++
      relation.target.getD "None" ++ " (" ++ relation.kind.name ++ ")"
  | .typeRegistered name category =>
    "Registered type: " ++ name.plain ++ " (" ++ category.name ++ ")"
  | .modelCompiled name fields =>
    "Compiled model " ++ name ++ " with " ++ Number.naturalText fields ++ " fields"
  | .modelRepeated name => "Model " ++ name ++ " already compiled, skipping duplicate"
  | .registryFrozen types fingerprint =>
    "Type registry frozen with " ++ Number.naturalText types ++ " types, fingerprint=" ++
      fingerprint
  | .registryBuilt models => "Built type registry for " ++ Number.naturalText models ++ " models"

def isWarning (e : Event) : Bool := e.level = .warning

end Event

/-- A computation with the events that happened on its way. -/
structure Traced (α : Type) where
  events : List Event
  outcome : Except Failure α

namespace Traced

variable {α β : Type}

def pure (a : α) : Traced α := ⟨[], .ok a⟩

def fail (e : Failure) : Traced α := ⟨[], .error e⟩

def ofExcept (outcome : Except Failure α) : Traced α := ⟨[], outcome⟩

/-- Reports one event. -/
def report (e : Event) : Traced Unit := ⟨[e], .ok ()⟩

/-- Goes on with the result of a computation; a failure ends it. -/
def bind (x : Traced α) (f : α → Traced β) : Traced β :=
  match x.outcome with
  | .error e => ⟨x.events, .error e⟩
  | .ok a =>
    let y := f a
    ⟨x.events ++ y.events, y.outcome⟩

instance : Monad Traced where
  pure := pure
  bind := bind

instance : MonadLift (Except Failure) Traced := ⟨ofExcept⟩

@[simp] theorem events_pure (a : α) : (Pure.pure a : Traced α).events = [] := rfl

@[simp] theorem outcome_pure (a : α) : (Pure.pure a : Traced α).outcome = .ok a := rfl

theorem bind_eq (x : Traced α) (f : α → Traced β) : x >>= f = bind x f := rfl

instance : LawfulMonad Traced :=
  LawfulMonad.mk' Traced
    (fun x => by
      obtain ⟨events, outcome⟩ := x
      cases outcome <;> simp [Functor.map, bind, pure])
    (fun a f => by simp [Bind.bind, Pure.pure, bind, pure])
    (fun x f g => by
      obtain ⟨events, outcome⟩ := x
      cases outcome with
      | error e => rfl
      | ok a =>
        simp only [Bind.bind, bind]
        cases (f a).outcome <;> simp)

end Traced

end ModelSchema
