/-!
# Exact numbers

Integers, binary fractions and decimal fractions are all of the form `± core · 2 ^ twos · 5 ^
fives`. With a core that neither two nor five divides this form is unique, so that two numbers
written in different ways are equal exactly when their forms are, whatever the size of their
exponents.
-/

namespace ModelSchema.Number

/-- How often a factor divides a number, and what is left; `fuel` above the binary length is
enough. -/
def stripFactor (factor : Nat) : Nat → Nat → Nat × Nat
  | 0, n => (0, n)
  | fuel + 1, n =>
    if n % factor = 0 then
      let (count, rest) := stripFactor factor fuel (n / factor)
      (count + 1, rest)
    else (0, n)

structure Exact where
  negative : Bool
  core : Nat
  twos : Int
  fives : Int
  deriving DecidableEq

namespace Exact

/-- The form of `± n · 2 ^ twos · 5 ^ fives`; zero has no sign and no powers. -/
def make (negative : Bool) (n : Nat) (twos fives : Int) : Exact :=
  if n = 0 then ⟨false, 0, 0, 0⟩
  else
    let fuel := n.log2 + 1
    let (a, odd) := stripFactor 2 fuel n
    let (b, core) := stripFactor 5 fuel odd
    ⟨negative, core, twos + a, fives + b⟩

def ofInt (n : Int) : Exact := make (n < 0) n.natAbs 0 0

end Exact

end ModelSchema.Number
