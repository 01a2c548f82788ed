import ModelSchema.Procedure

/-!
# How procedures end

A procedure, run from a state, ends with a result or a failure and in a state. `Ends` names the
three of them; the events on the way do not count. Whether a sequence of procedures ends well, and
where, follows from its parts: it ends with a result if both parts do, and with a failure if the
first part fails or the second does.
-/

namespace ModelSchema

variable {σ τ α β ε : Type}

theorem exists_of_isOk {x : Except ε α} (h : x.isOk = true) : ∃ a, x = .ok a := by
  cases x with
  | ok a => exact ⟨a, rfl⟩
  | error e => cases h

theorem exists_of_bind_ok {x : Except ε α} {f : α → Except ε β} {b : β}
    (h : x.bind f = .ok b) : ∃ a, x = .ok a ∧ f a = .ok b := by
  cases x with
  | ok a => exact ⟨a, rfl, h⟩
  | error e => cases h

theorem exists_of_map_ok {x : Except ε α} {f : α → β} {b : β} (h : x.map f = .ok b) :
    ∃ a, x = .ok a ∧ b = f a := by
  cases x with
  | ok a =>
    cases h
    exact ⟨a, rfl, rfl⟩
  | error e => cases h

namespace Traced

theorem bind_eq_ok {x : Traced α} {f : α → Traced β} {b : β} :
    (x >>= f).outcome = .ok b ↔ ∃ a, x.outcome = .ok a ∧ (f a).outcome = .ok b := by
  rw [bind_eq, bind]
  cases x.outcome <;> simp

theorem bind_eq_error {x : Traced α} {f : α → Traced β} {e : Failure} :
    (x >>= f).outcome = .error e ↔
      x.outcome = .error e ∨ ∃ a, x.outcome = .ok a ∧ (f a).outcome = .error e := by
  rw [bind_eq, bind]
  cases x.outcome <;> simp

theorem outcome_bind (x : Traced α) (f : α → Traced β) :
    (x >>= f).outcome = x.outcome.bind fun a => (f a).outcome := by
  rw [bind_eq, bind]
  cases x.outcome <;> rfl

@[simp] theorem outcome_liftM (x : Except Failure α) : (liftM x : Traced α).outcome = x := rfl

@[simp] theorem outcome_fail (e : Failure) : (fail e : Traced α).outcome = .error e := rfl

@[simp] theorem outcome_report (e : Event) : (report e).outcome = .ok () := rfl

end Traced

namespace Procedure

/-- A procedure that is run from `s` ends with the outcome `x` and in the state `t`. -/
def Ends (p : Procedure σ α) (s : σ) (x : Except Failure α) (t : σ) : Prop :=
  p.finalState s = t ∧ (p.run s).2.outcome = x

theorem ends_self (p : Procedure σ α) (s : σ) : p.Ends s (p.run s).2.outcome (p.finalState s) :=
  ⟨rfl, rfl⟩

theorem Ends.unique {p : Procedure σ α} {s t t' : σ} {x x' : Except Failure α} (h : p.Ends s x t)
    (h' : p.Ends s x' t') : x = x' ∧ t = t' :=
  ⟨h.2.symm.trans h'.2, h.1.symm.trans h'.1⟩

section Steps

variable {s t : σ} {x : Except Failure α}

@[simp] theorem ends_pure {a : α} :
    (Pure.pure a : Procedure σ α).Ends s x t ↔ .ok a = x ∧ s = t := by
  simp [Ends, finalState, and_comm]

@[simp] theorem ends_get {x : Except Failure σ} :
    (get : Procedure σ σ).Ends s x t ↔ .ok s = x ∧ s = t := by
  simp [Ends, finalState, and_comm]

@[simp] theorem ends_modify {f : σ → σ} {x : Except Failure Unit} :
    (modify f).Ends s x t ↔ .ok () = x ∧ f s = t := by
  simp [Ends, finalState, and_comm]

@[simp] theorem ends_liftM {y : Traced α} :
    (liftM y : Procedure σ α).Ends s x t ↔ y.outcome = x ∧ s = t := by
  change s = t ∧ y.outcome = x ↔ _
  exact and_comm

@[simp] theorem ends_onPart {part : σ → τ} {replace : τ → σ → σ} {p : Procedure τ α} :
    (onPart part replace p).Ends s x t ↔ ∃ u, p.Ends (part s) x u ∧ replace u s = t := by
  simp only [Ends, finalState, run, onPart]
  constructor
  · rintro ⟨rfl, rfl⟩
    exact ⟨_, ⟨rfl, rfl⟩, rfl⟩
  · rintro ⟨_, ⟨rfl, rfl⟩, rfl⟩
    exact ⟨rfl, rfl⟩

end Steps

section Sequences

variable {p : Procedure σ α} {f : α → Procedure σ β} {s u : σ}

theorem ends_bind_ok {b : β} :
    (p >>= f).Ends s (.ok b) u ↔ ∃ a t, p.Ends s (.ok a) t ∧ (f a).Ends t (.ok b) u := by
  simp only [Ends, finalState, run_bind]
  constructor
  · intro h
    split at h
    · simp at h
    · rename_i a ha
      exact ⟨a, _, ⟨rfl, ha⟩, h⟩
  · rintro ⟨a, t, ⟨rfl, ha⟩, h⟩
    simp only [ha]
    exact h

theorem ends_bind_error {e : Failure} :
    (p >>= f).Ends s (.error e) u ↔
      p.Ends s (.error e) u ∨ ∃ a t, p.Ends s (.ok a) t ∧ (f a).Ends t (.error e) u := by
  simp only [Ends, finalState, run_bind]
  constructor
  · intro h
    split at h
    · rename_i e' he
      obtain ⟨hu, rfl⟩ : (p.run s).1 = u ∧ e' = e := by simpa using h
      exact .inl ⟨hu, he⟩
    · rename_i a ha
      exact .inr ⟨a, _, ⟨rfl, ha⟩, h⟩
  · rintro (⟨rfl, he⟩ | ⟨a, t, ⟨rfl, ha⟩, h⟩)
    · simp [he]
    · simp only [ha]
      exact h

/-- After a first part that ends with a result a sequence ends as its second part does. -/
theorem Ends.bind {a : α} {t : σ} {x : Except Failure β} (hp : p.Ends s (.ok a) t)
    (hf : (f a).Ends t x u) : (p >>= f).Ends s x u := by
  cases x with
  | ok b => exact ends_bind_ok.mpr ⟨a, t, hp, hf⟩
  | error e => exact ends_bind_error.mpr (.inr ⟨a, t, hp, hf⟩)

end Sequences

end Procedure

end ModelSchema
