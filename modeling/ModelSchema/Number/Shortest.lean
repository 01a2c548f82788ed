import ModelSchema.Number.Binary64
import ModelSchema.Number.Digits

/-!
# Shortest decimal text of a binary number

A finite binary number is written with the fewest decimal digits that read back as it, and among
those with the digits nearest to it, a tie going to the even last digit. The search is exact: the
numbers that read back form an interval whose ends are quarters of the last binary place, and on
each decimal grid only the two neighbours of the number have to be tried.
-/

namespace ModelSchema.Number

/-- The interval of reals that round to `significand · 2 ^ exponent`, in quarters of
`2 ^ exponent`. -/
structure RoundingInterval where
  low : Nat
  centre : Nat
  high : Nat
  /-- Whether the ends belong to the interval. -/
  closed : Bool

/-- Below a power of two the spacing halves, so the lower end is nearer there. The ends belong to an
even significand. -/
def roundingInterval (significand : Nat) (exponent : Int) : RoundingInterval :=
  let gap := if significand = Nat.pow 2 52 ∧ exponent > -1074 then 1 else 2
  ⟨4 * significand - gap, 4 * significand, 4 * significand + 2, significand % 2 = 0⟩

/-- A decimal number `coefficient · 10 ^ exponent`. -/
structure DecimalPair where
  coefficient : Nat
  exponent : Int
  deriving DecidableEq

/-- The point of the grid `10 ^ grid` nearest to the number, or the one on its other side, if that
reads back as the number. -/
def onGrid? (significand : Nat) (exponent grid : Int) : Option DecimalPair :=
  let interval := roundingInterval significand exponent
  let step := Nat.pow 10 grid.toNat * Nat.pow 2 (2 - exponent).toNat
  let unit := Nat.pow 10 (-grid).toNat * Nat.pow 2 (exponent - 2).toNat
  let value := interval.centre * unit
  let below := value / step
  let remainder := value % step
  let inside (d : Nat) : Bool :=
    if interval.closed then interval.low * unit ≤ d * step && d * step ≤ interval.high * unit
    else interval.low * unit < d * step && d * step < interval.high * unit
  let (nearer, farther) :=
    if step < 2 * remainder ∨ (2 * remainder = step ∧ below % 2 = 1) then (below + 1, below)
    else (below, below + 1)
  if inside nearer then some ⟨nearer, grid⟩
  else if inside farther then some ⟨farther, grid⟩
  else none

/-- The position of the decimal point: the number lies between `10 ^ (point - 1)` and
`10 ^ point`. -/
def decimalPoint (significand : Nat) (exponent : Int) : Int :=
  let whole := significand * Nat.pow 2 exponent.toNat * Nat.pow 5 (-exponent).toNat
  (digits whole).length - (-exponent).toNat

/-- The shortest decimal that reads back, tried from `count` digits up. Seventeen digits always
do. -/
def shortestFrom (significand : Nat) (exponent point : Int) : Nat → Nat → DecimalPair
  | 0, count =>
    (onGrid? significand exponent (point - count)).getD ⟨significand, exponent⟩
  | fuel + 1, count =>
    match onGrid? significand exponent (point - count) with
    | some pair => pair
    | none => shortestFrom significand exponent point fuel (count + 1)

/-- The shortest decimal that reads back as a positive number. -/
def shortest (significand : Nat) (exponent : Int) : DecimalPair :=
  shortestFrom significand exponent (decimalPoint significand exponent) 16 1

/-- Small exponents have two digits at least. -/
def exponentDigits (n : Int) : List Char :=
  let ds := digits n.natAbs
  (if n < 0 then '-' else '+') :: (if ds.length < 2 then '0' :: ds else ds)

/-- The digits of a positive decimal number with its point: positional from `10 ^ -4` to below `10 ^
16` and with an exponent otherwise. Positional text always shows a digit behind the point. -/
def decimalDigits (pair : DecimalPair) : List Char :=
  let all := digits pair.coefficient
  let ds := (all.reverse.dropWhile (· == '0')).reverse
  let point := all.length + pair.exponent
  if -4 < point ∧ point ≤ 16 then
    if point ≤ 0 then '0' :: '.' :: (List.replicate (-point).toNat '0' ++ ds)
    else if ds.length ≤ point then
      ds ++ List.replicate (point.toNat - ds.length) '0' ++ ['.', '0']
    else ds.take point.toNat ++ '.' :: ds.drop point.toNat
  else
    let fraction := if ds.length ≤ 1 then [] else '.' :: ds.drop 1
    ds.take 1 ++ fraction ++ 'e' :: exponentDigits (point - 1)

/-- The text of a binary number. -/
def Binary64.text : Binary64 → String
  | .finite negative significand exponent =>
    let unsigned :=
      if significand = 0 then ['0', '.', '0'] else decimalDigits (shortest significand exponent)
    String.ofList (if negative then '-' :: unsigned else unsigned)
  | .infinite negative => if negative then "-inf" else "inf"
  | .undefined _ => "nan"

end ModelSchema.Number
