import ModelSchema.Number.Decimal

/-!
# The order of numbers

Numbers of every kind are decimal numbers: a binary fraction is one as well, since two divides ten.
Two of them are compared by the place of their first digit, and only if these agree by their digits,
so that no power of ten is formed but one that their digits make up for.
-/

namespace ModelSchema.Number

namespace Decimal

def ofInt (n : Int) : Decimal := .finite (n < 0) n.natAbs 0

/-- The decimal number that a binary number is. -/
def ofBinary64 : Binary64 → Decimal
  | .finite negative significand exponent =>
    if exponent < 0 then .finite negative (significand * Nat.pow 5 (-exponent).toNat) exponent
    else .finite negative (significand * Nat.pow 2 exponent.toNat) 0
  | .infinite negative => .infinite negative
  | .undefined tag => .undefined false false "" tag

/-- Whether `c · 10 ^ e` is less than `c' · 10 ^ e'`. -/
def sizeBefore (c : Nat) (e : Int) (c' : Nat) (e' : Int) : Bool :=
  if c' = 0 then false
  else if c = 0 then true
  else
    let top := e + (digits c).length
    let top' := e' + (digits c').length
    if top = top' then c * Nat.pow 10 (e - e').toNat < c' * Nat.pow 10 (e' - e).toNat
    else top < top'

/-- Whether a number comes before another, neither of them undefined. -/
def before (a b : Decimal) : Bool :=
  match a, b with
  | .finite false c e, .finite false c' e' => sizeBefore c e c' e'
  | .finite true c e, .finite true c' e' => sizeBefore c' e' c e
  | .finite false _ _, .finite true _ _ => false
  | .finite true c _, .finite false c' _ => c != 0 || c' != 0
  | .infinite negative, .infinite negative' => negative && !negative'
  | .infinite negative, .finite .. => negative
  | .finite .., .infinite negative' => !negative'
  | .undefined .., _ | _, .undefined .. => false

def isUndefined : Decimal → Bool
  | .undefined .. => true
  | _ => false

end Decimal

end ModelSchema.Number
