import ModelSchema.Number.Exact

/-!
# Binary floating-point numbers

Numbers of the 64-bit binary format, kept as their exact values: a significand below `2 ^ 53` times
a power of two from `2 ^ -1074` up. Reading a decimal text gives the nearest such number, with ties
to the even significand and with infinity beyond the largest.
-/

namespace ModelSchema.Number

inductive Binary64 where
  /-- The value `± significand · 2 ^ exponent`. -/
  | finite (negative : Bool) (significand : Nat) (exponent : Int)
  | infinite (negative : Bool)
  /-- Not a number. Two of these are the same thing only if their tags agree. -/
  | undefined (tag : Nat)
  deriving DecidableEq

/-- The quotient rounded to a whole number, a half to the even neighbour. -/
def roundHalfEven (numerator denominator : Nat) : Nat :=
  let q := numerator / denominator
  let r := numerator % denominator
  if denominator < 2 * r ∨ (2 * r = denominator ∧ q % 2 = 1) then q + 1 else q

namespace Binary64

/-- The binary exponent of the last place of a positive quotient: the one that leaves 53 binary
digits, but never below -1074. -/
def lastPlace (numerator denominator : Nat) : Int :=
  let guess : Int := (numerator.log2 : Int) - denominator.log2 - 53
  let scaled (e : Int) : Nat :=
    (numerator * Nat.pow 2 (-e).toNat) / (denominator * Nat.pow 2 e.toNat)
  let place := if scaled guess < Nat.pow 2 53 then guess else guess + 1
  max place (-1074)

/-- The nearest number to a quotient of whole numbers. -/
def ofQuotient (negative : Bool) (numerator denominator : Nat) : Binary64 :=
  if numerator = 0 then .finite negative 0 (-1074)
  else
    let place := lastPlace numerator denominator
    let m :=
      roundHalfEven (numerator * Nat.pow 2 (-place).toNat) (denominator * Nat.pow 2 place.toNat)
    let (significand, exponent) :=
      if m = Nat.pow 2 53 then (Nat.pow 2 52, place + 1) else (m, place)
    if exponent > 971 then .infinite negative else .finite negative significand exponent

/-- The nearest number to `± digits · 10 ^ exponent`. Exponents so large or so small that the answer
is plain are answered before any power of ten is formed. -/
def ofDecimal (negative : Bool) (digits : Nat) (exponent : Int) : Binary64 :=
  if digits = 0 then .finite negative 0 (-1074)
  else if exponent > 400 then .infinite negative
  else if exponent + digits.log2 < -1200 then .finite negative 0 (-1074)
  else ofQuotient negative (digits * Nat.pow 10 exponent.toNat) (Nat.pow 10 (-exponent).toNat)

/-- Whether the number is zero, of either sign. -/
def isZero : Binary64 → Bool
  | .finite _ 0 _ => true
  | _ => false

/-- The exact value of a finite number. -/
def exactValue? : Binary64 → Option Exact
  | .finite negative significand exponent => some (Exact.make negative significand exponent 0)
  | _ => none

/-- The least integer that is not below a finite number. -/
def ceiling? : Binary64 → Option Int
  | .finite negative significand exponent =>
    let n : Int := significand * Nat.pow 2 exponent.toNat
    let d : Int := Nat.pow 2 (-exponent).toNat
    some (if negative then -(n / d) else -((-n) / d))
  | _ => none

end Binary64

end ModelSchema.Number
