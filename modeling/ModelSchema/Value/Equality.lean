import ModelSchema.Table
import ModelSchema.Value.Basic

/-!
# Equality of values

Two values are the same when a query cannot tell them apart: numbers are compared by their exact
value whatever their kind, so that `1`, `1.0` and `true` are the same; lists, tuples and records
item by item; mappings, sets and attribute objects without regard to order; dates with times by the
instant that they name. Values of different kinds are otherwise different. A number that is not a
number is the same only as itself.

Knots are compared as they are folded up. To compare two of them level by level would never end
where they agree, unless they are one and the same.
-/

namespace ModelSchema

/-- What a number is equal by. -/
inductive Quantity where
  | exact (value : Number.Exact)
  | infinite (negative : Bool)
  | undefined (tag : Nat)
  deriving DecidableEq

namespace Value

/-- The quantity of a number; the truth values count as zero and one. -/
def quantity? : Value → Option Quantity
  | .bool b => some (.exact (Number.Exact.ofInt (if b then 1 else 0)))
  | .int n => some (.exact (Number.Exact.ofInt n))
  | .float x => match x with
    | .infinite negative => some (.infinite negative)
    | .undefined tag => some (.undefined tag)
    | x => x.exactValue?.map .exact
  | .decimal d => match d with
    | .infinite negative => some (.infinite negative)
    | .undefined _ _ _ tag => some (.undefined tag)
    | d => d.exactValue?.map .exact
  | _ => none

/-- Whether two values are numbers of the same quantity. -/
def sameQuantity (a b : Value) : Bool :=
  match a.quantity?, b.quantity? with
  | some x, some y => x == y
  | _, _ => false

mutual

/-- Whether two values are the same. -/
def same (a b : Value) : Bool :=
  match a, b with
  | .null, .null => true
  | .text s, .text t => s == t
  | .list xs, .list ys => sameItems xs ys
  | .tuple xs, .tuple ys => sameItems xs ys
  | .mapping xs, .mapping ys => entriesIn xs ys && ys.all fun y => hasEntry xs y.1 y.2
  | .knot before key after form, .knot before' key' after' form' =>
    entriesIn before before' && (before'.all fun y => hasEntry before y.1 y.2) &&
      key.same key' && entriesIn after after' && (after'.all fun y => hasEntry after y.1 y.2) &&
      form == form'
  | .object xs, .object ys => fieldsIn xs ys && ys.all fun y => hasField xs y.1 y.2
  | .record shape xs, .record shape' ys =>
    shape == shape' && fieldsIn xs ys && ys.all fun y => hasField xs y.1 y.2
  | .set xs, .set ys => itemsIn xs ys && ys.all fun y => hasItem xs y
  | .type t, .type u => t == u
  | .date d, .date e => d == e
  | .dateTime d, .dateTime e => d.same e
  | .bytes xs, .bytes ys => xs == ys
  | .enumerator enumeration written, .enumerator enumeration' written' =>
    enumeration == enumeration' && written == written'
  | x, y => sameQuantity x y
termination_by structural a

/-- Whether two lists have the same items in the same order. -/
def sameItems (as bs : List Value) : Bool :=
  match as, bs with
  | [], [] => true
  | a :: as, b :: bs => a.same b && sameItems as bs
  | _, _ => false
termination_by structural as

/-- Whether every item of the first list is the same as one of the second. -/
def itemsIn (as bs : List Value) : Bool :=
  match as with
  | [] => true
  | a :: as => (bs.any fun b => a.same b) && itemsIn as bs
termination_by structural as

/-- Whether an item of the list is the same as the given one. -/
def hasItem (as : List Value) (b : Value) : Bool :=
  match as with
  | [] => false
  | a :: as => a.same b || hasItem as b
termination_by structural as

/-- Whether every entry of the first list is the same as one of the second. -/
def entriesIn (as bs : List (Value × Value)) : Bool :=
  match as with
  | [] => true
  | (k, v) :: as => (bs.any fun b => k.same b.1 && v.same b.2) && entriesIn as bs
termination_by structural as

/-- Whether an entry of the list has the given key and value. -/
def hasEntry (as : List (Value × Value)) (key value : Value) : Bool :=
  match as with
  | [] => false
  | (k, v) :: as => (k.same key && v.same value) || hasEntry as key value
termination_by structural as

/-- Whether every field of the first list is the same as one of the second. -/
def fieldsIn (as bs : List (String × Value)) : Bool :=
  match as with
  | [] => true
  | (k, v) :: as => (bs.any fun b => k == b.1 && v.same b.2) && fieldsIn as bs
termination_by structural as

/-- Whether a field of the list has the given name and value. -/
def hasField (as : List (String × Value)) (name : String) (value : Value) : Bool :=
  match as with
  | [] => false
  | (k, v) :: as => (k == name && v.same value) || hasField as name value
termination_by structural as

end

instance : BEq Value := ⟨same⟩

theorem beq_eq_same (a b : Value) : (a == b) = a.same b := rfl

@[simp] theorem text_beq_text (s t : String) : (Value.text s == Value.text t) = (s == t) := rfl

/-- The first of each group of equal values, in order, after those already kept. -/
def distinctOnto (kept : List Value) : List Value → List Value
  | [] => kept
  | v :: rest => distinctOnto (if kept.contains v then kept else kept ++ [v]) rest

/-- The first of each group of equal values, in order. -/
def distinct (values : List Value) : List Value := distinctOnto [] values

/-- The knot of a mapping with the given entries that holds itself under a key. An entry with that
key gives its place, and its key, to the knot. -/
def tieKnot (entries : List (Value × Value)) (key : Value) (form : KnotForm) : Value :=
  match entries.span fun entry => !(entry.1 == key) with
  | (before, []) => .knot before key [] form
  | (before, (k, _) :: after) => .knot before k after form

end Value

end ModelSchema
