import ModelSchema.Text.Digit

/-!
# Decimal digits of whole numbers

The decimal text of a whole number, its fixed-width text with leading zeros, and the reader of both.
Main statements: the text reads back as the number, and so does the fixed-width text of a number
that fits its width.
-/

namespace ModelSchema.Number

/-- The digit of a number below ten. -/
def digitChar (n : Nat) : Char := Char.ofNat ('0'.toNat + n)

theorem asciiDigit?_digitChar : ∀ n < 10, Text.asciiDigit? (digitChar n) = some n := by decide

/-- Writes the digits of a number in front of the given text; `fuel` above the number is enough. -/
def digitsOnto : Nat → Nat → List Char → List Char
  | 0, _, tail => tail
  | fuel + 1, n, tail =>
    if n < 10 then digitChar n :: tail else digitsOnto fuel (n / 10) (digitChar (n % 10) :: tail)

/-- The decimal digits of a number, without leading zeros. -/
def digits (n : Nat) : List Char := digitsOnto (n + 1) n []

/-- The lowest `width` decimal digits of a number, the highest first. -/
def fixedDigits : Nat → Nat → List Char
  | 0, _ => []
  | width + 1, n => fixedDigits width (n / 10) ++ [digitChar (n % 10)]

/-- Reads the digits `0` to `9` after a value already read. -/
def readDigits (value : Nat) : List Char → Option Nat
  | [] => some value
  | c :: rest => match Text.asciiDigit? c with
    | some d => readDigits (value * 10 + d) rest
    | none => none

theorem readDigits_append (value : Nat) (cs ds : List Char) :
    readDigits value (cs ++ ds) = (readDigits value cs).bind fun v => readDigits v ds := by
  induction cs generalizing value with
  | nil => rfl
  | cons c rest ih =>
    simp only [List.cons_append, readDigits]
    split
    · exact ih _
    · rfl

@[simp] theorem length_fixedDigits (width n : Nat) : (fixedDigits width n).length = width := by
  induction width generalizing n with
  | zero => rfl
  | succ width ih => simp [fixedDigits, ih]

theorem readDigits_fixedDigits (width n value : Nat) (h : n < Nat.pow 10 width) :
    readDigits value (fixedDigits width n) = some (value * Nat.pow 10 width + n) := by
  induction width generalizing n value with
  | zero =>
    have : n = 0 := Nat.lt_one_iff.mp h
    simp [fixedDigits, readDigits, this, Nat.pow]
  | succ width ih =>
    have hd : n / 10 < Nat.pow 10 width := (Nat.div_lt_iff_lt_mul (by decide)).mpr h
    rw [fixedDigits, readDigits_append, ih _ _ hd]
    have hm : n % 10 < 10 := Nat.mod_lt _ (by decide)
    simp only [Option.bind_some, readDigits, asciiDigit?_digitChar _ hm, Option.some.injEq]
    have := Nat.div_add_mod n 10
    have hp : Nat.pow 10 (width + 1) = Nat.pow 10 width * 10 := rfl
    rw [Nat.add_mul, Nat.mul_assoc, ← hp]
    omega

theorem readDigits_digitsOnto (fuel n : Nat) (tail : List Char) (h : n < fuel) :
    readDigits 0 (digitsOnto fuel n tail) = readDigits n tail := by
  induction fuel generalizing n tail with
  | zero => omega
  | succ fuel ih =>
    unfold digitsOnto
    split
    · rename_i hn
      simp [readDigits, asciiDigit?_digitChar _ hn]
    · have hm : n % 10 < 10 := Nat.mod_lt _ (by decide)
      rw [ih _ _ (by omega)]
      simp only [readDigits, asciiDigit?_digitChar _ hm]
      congr 1
      omega

theorem readDigits_digits (n : Nat) : readDigits 0 (digits n) = some n := by
  rw [digits, readDigits_digitsOnto _ _ _ (by omega)]
  rfl

/-- The digits of an integer behind its sign, if it is negative. -/
def integerDigits (n : Int) : List Char :=
  if n < 0 then '-' :: digits n.natAbs else digits n.natAbs

/-- The decimal text of a whole number. -/
def naturalText (n : Nat) : String := String.ofList (digits n)

/-- The decimal text of an integer. -/
def integerText (n : Int) : String := String.ofList (integerDigits n)

/-- The most digits that are converted between integers and texts. -/
def digitLimit : Nat := 4300

/-- How many decimal digits an integer has. -/
def digitCount (n : Int) : Nat := (digits n.natAbs).length

/-- Whether an integer is written at all: one with more digits than the limit is not. -/
def isShort (n : Int) : Bool := digitCount n ≤ digitLimit

end ModelSchema.Number
