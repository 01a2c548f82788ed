import ModelSchema.Value.Equality

/-!
# Signalling numbers

A signalling decimal may be kept and shown, but not compared with another number: it signals that
the comparison means nothing. Collections are compared item by item up to the first difference, so a
signal behind a difference is not met. Main statements: neither texts nor null are ever met with a
signal.
-/

namespace ModelSchema.Value

def isSignalling : Value → Bool
  | .decimal (.undefined _ signalling _ _) => signalling
  | _ => false

/-- Whether comparing two numbers signals. A number may be compared with itself. -/
def numberSignals (a b : Value) : Bool :=
  match a.quantity?, b.quantity? with
  | some x, some y => (a.isSignalling || b.isSignalling) && x != y
  | _, _ => false

mutual

/-- Whether comparing two values comes upon a signal. -/
def signals (a b : Value) : Bool :=
  match a, b with
  | .list xs, .list ys => xs.length == ys.length && itemsSignal xs ys
  | .tuple xs, .tuple ys => itemsSignal xs ys
  | .mapping xs, .mapping ys => xs.length == ys.length && entriesSignal xs ys
  | .object xs, .object ys => xs.length == ys.length && fieldsSignal xs ys
  | .record shape xs, .record shape' ys => shape == shape' && fieldsSignal xs ys
  | x, y => numberSignals x y
termination_by structural a

/-- Whether comparing two lists item by item comes upon a signal. -/
def itemsSignal (as bs : List Value) : Bool :=
  match as, bs with
  | a :: as, b :: bs => a.signals b || (a.same b && itemsSignal as bs)
  | _, _ => false
termination_by structural as

/-- Whether comparing the entries of two mappings comes upon a signal. -/
def entriesSignal (as bs : List (Value × Value)) : Bool :=
  match as with
  | [] => false
  | (k, v) :: as => match Table.find? k bs with
    | none => false
    | some w => v.signals w || (v.same w && entriesSignal as bs)
termination_by structural as

/-- Whether comparing named fields comes upon a signal. -/
def fieldsSignal (as bs : List (String × Value)) : Bool :=
  match as with
  | [] => false
  | (k, v) :: as => match Table.find? k bs with
    | none => false
    | some w => v.signals w || (v.same w && fieldsSignal as bs)
termination_by structural as

end

/-- Whether looking for a value in a list comes upon a signal before the value is found. -/
def searchSignals (v : Value) : List Value → Bool
  | [] => false
  | k :: rest => k.signals v || (!(k == v) && searchSignals v rest)

/-- Whether dropping repetitions comes upon a signal, after the values already kept. -/
def distinctSignals (kept : List Value) : List Value → Bool
  | [] => false
  | v :: rest =>
    searchSignals v kept || distinctSignals (if kept.contains v then kept else kept ++ [v]) rest

@[simp] theorem text_signals (s : String) (b : Value) : (Value.text s).signals b = false := by
  cases b <;> simp [signals, numberSignals, quantity?]

@[simp] theorem null_signals (b : Value) : Value.null.signals b = false := by
  cases b <;> simp [signals, numberSignals, quantity?]

end ModelSchema.Value
