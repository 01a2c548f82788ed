import ModelSchema.Number.Exact
import ModelSchema.Number.FloatText
import ModelSchema.Text.Blank

/-!
# Decimal numbers

Decimal numbers keep the digits they were written with: `1.50` and `1.5` are equal numbers with
different texts. Their text is the scientific text of the General Decimal Arithmetic: positional
while the exponent is not positive and the number has at most six leading zeros, with an `E`
otherwise.
-/

namespace ModelSchema.Number

inductive Decimal where
  /-- The value `± coefficient · 10 ^ exponent`. -/
  | finite (negative : Bool) (coefficient : Nat) (exponent : Int)
  | infinite (negative : Bool)
  /-- Not a number, with the digits that tell why. Two of these are the same thing only if their
  tags agree. -/
  | undefined (negative signalling : Bool) (reason : String) (tag : Nat)
  deriving DecidableEq

/-- Why a text stands for no decimal number. -/
inductive DecimalError where
  | notNumber
  /-- The number is too large, or its last digit stands too far behind the point. -/
  | outOfRange
  deriving DecidableEq

def DecimalError.message : DecimalError → String
  | .notNumber => "[<class 'decimal.ConversionSyntax'>]"
  | .outOfRange => "[<class 'decimal.InvalidOperation'>]"

namespace Decimal

def signText (negative : Bool) : String := if negative then "-" else ""

/-- The text of a decimal number. -/
def text : Decimal → String
  | .infinite negative => signText negative ++ "Infinity"
  | .undefined negative signalling reason _ =>
    signText negative ++ (if signalling then "sNaN" else "NaN") ++ reason
  | .finite negative coefficient exponent =>
    let ds := digits coefficient
    let left := exponent + ds.length
    let point := if exponent ≤ 0 ∧ left > -6 then left else 1
    let body :=
      if point ≤ 0 then '0' :: '.' :: (List.replicate (-point).toNat '0' ++ ds)
      else if ds.length ≤ point then ds ++ List.replicate (point.toNat - ds.length) '0'
      else ds.take point.toNat ++ '.' :: ds.drop point.toNat
    let power :=
      if left = point then []
      else 'E' :: (if left - point < 0 then '-' else '+') :: digits (left - point).natAbs
    signText negative ++ String.ofList (body ++ power)

/-- The power of ten of the first digit that a number can have at most. -/
def greatestPower : Int := 999999999999999999

/-- The power of ten of the last digit that a number must have at least. -/
def leastPower : Int := -1999999999999999997

/-- The finite number of a coefficient and an exponent, if all of its digits can be told. -/
def make (negative : Bool) (coefficient : Nat) (exponent : Int) : Except DecimalError Decimal :=
  if leastPower ≤ exponent ∧ exponent + (digits coefficient).length ≤ greatestPower + 1 then
    .ok (.finite negative coefficient exponent)
  else .error .outOfRange

/-- Reads a decimal text in any case, with blanks around it, digits of any script and underscores
anywhere. -/
def ofText (s : String) : Except DecimalError Decimal :=
  let plain := ((Text.trim s).toList.filter (· != '_')).map fun c => (plainDigit c).toLower
  let (negative, rest) := takeSign plain
  match rest with
  | ['i', 'n', 'f'] | ['i', 'n', 'f', 'i', 'n', 'i', 't', 'y'] => .ok (.infinite negative)
  | 'n' :: 'a' :: 'n' :: reason => reasoned negative false reason
  | 's' :: 'n' :: 'a' :: 'n' :: reason => reasoned negative true reason
  | _ => match takeDecimal? rest with
    | some (n, exponent, []) => make negative n exponent
    | _ => .error .notNumber
where
  reasoned (negative signalling : Bool) (reason : List Char) : Except DecimalError Decimal :=
    match spanDigits reason with
    | (ds, []) => .ok (.undefined negative signalling (String.ofList (ds.dropWhile (· == '0'))) 0)
    | _ => .error .notNumber

def isZero : Decimal → Bool
  | .finite _ 0 _ => true
  | _ => false

/-- The exact value of a finite number. -/
def exactValue? : Decimal → Option Exact
  | .finite negative coefficient exponent =>
    some (Exact.make negative coefficient exponent exponent)
  | _ => none

/-- The power of ten above which a number is larger than anything that is counted. -/
def vastPower : Int := 5000

/-- Whether a number is larger, in size, than anything that is counted. -/
def isVast : Decimal → Bool
  | .finite _ coefficient exponent => coefficient != 0 && decide (vastPower < exponent)
  | .infinite _ => true
  | .undefined .. => false

def isNegative : Decimal → Bool
  | .finite negative _ _ | .infinite negative | .undefined negative _ _ _ => negative

/-- The least integer that is not below a finite number. A number without whole digits is told from
zero by its sign alone. -/
def ceiling? : Decimal → Option Int
  | .finite negative coefficient exponent =>
    if coefficient = 0 then some 0
    else if exponent + (digits coefficient).length ≤ 0 then some (if negative then 0 else 1)
    else
      let n : Int := coefficient * Nat.pow 10 exponent.toNat
      let d : Int := Nat.pow 10 (-exponent).toNat
      some (if negative then -(n / d) else -((-n) / d))
  | _ => none

end Decimal

end ModelSchema.Number
