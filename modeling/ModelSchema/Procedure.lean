import ModelSchema.Trace

/-!
# Procedures

Traced computations on a state. What a procedure has done to the state before it fails stays done.
-/

namespace ModelSchema

/-- A traced computation on a state. -/
def Procedure (σ α : Type) : Type := σ → σ × Traced α

namespace Procedure

variable {σ τ α β : Type}

def run (p : Procedure σ α) (s : σ) : σ × Traced α := p s

/-- The state that a procedure leaves. -/
def finalState (p : Procedure σ α) (s : σ) : σ := (p.run s).1

def pure (a : α) : Procedure σ α := fun s => (s, Traced.pure a)

/-- Goes on with the result of a procedure and the state that it leaves; a failure ends both. -/
def bind (p : Procedure σ α) (f : α → Procedure σ β) : Procedure σ β := fun s =>
  let (next, x) := p s
  match x.outcome with
  | .error e => (next, ⟨x.events, .error e⟩)
  | .ok a =>
    let (last, y) := f a next
    (last, ⟨x.events ++ y.events, y.outcome⟩)

instance : Monad (Procedure σ) where
  pure := pure
  bind := bind

/-- Looks at the state. -/
def get : Procedure σ σ := fun s => (s, Traced.pure s)

def modify (f : σ → σ) : Procedure σ Unit := fun s => (f s, Traced.pure ())

/-- A computation that does not touch the state. -/
def ofTraced (x : Traced α) : Procedure σ α := fun s => (s, x)

instance : MonadLift Traced (Procedure σ) := ⟨ofTraced⟩

/-- A procedure on a part of the state. -/
def onPart (part : σ → τ) (replace : τ → σ → σ) (p : Procedure τ α) : Procedure σ α := fun s =>
  let (t, x) := p (part s)
  (replace t s, x)

@[simp] theorem run_pure (a : α) (s : σ) :
    (Pure.pure a : Procedure σ α).run s = (s, Pure.pure a) := rfl

@[simp] theorem run_get (s : σ) : (get : Procedure σ σ).run s = (s, Pure.pure s) := rfl

@[simp] theorem run_modify (f : σ → σ) (s : σ) : (modify f).run s = (f s, Pure.pure ()) := rfl

@[simp] theorem run_ofTraced (x : Traced α) (s : σ) :
    (ofTraced x : Procedure σ α).run s = (s, x) := rfl

theorem run_bind (p : Procedure σ α) (f : α → Procedure σ β) (s : σ) :
    (p >>= f).run s =
      match (p.run s).2.outcome with
      | .error e => ((p.run s).1, ⟨(p.run s).2.events, .error e⟩)
      | .ok a =>
        (((f a).run (p.run s).1).1,
          ⟨(p.run s).2.events ++ ((f a).run (p.run s).1).2.events,
            ((f a).run (p.run s).1).2.outcome⟩) := by
  simp only [Bind.bind, bind, run]

end Procedure

end ModelSchema
