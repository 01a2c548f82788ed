/-!
# Hexadecimal text

Fixed-width hexadecimal text in small letters. Main statement: the text of a number below `16 ^
width` reads back as that number.
-/

namespace ModelSchema.Text

/-- The digit of a number below sixteen. -/
def hexDigit (n : Nat) : Char :=
  if n < 10 then Char.ofNat ('0'.toNat + n) else Char.ofNat ('a'.toNat + (n - 10))

/-- The value of a digit, in small or capital letters. -/
def hexValue? (c : Char) : Option Nat :=
  if '0' ≤ c ∧ c ≤ '9' then some (c.toNat - '0'.toNat)
  else if 'a' ≤ c ∧ c ≤ 'f' then some (c.toNat - 'a'.toNat + 10)
  else if 'A' ≤ c ∧ c ≤ 'F' then some (c.toNat - 'A'.toNat + 10)
  else none

/-- The lowest `width` hexadecimal digits of a number, the highest first. -/
def hexDigits : Nat → Nat → List Char
  | 0, _ => []
  | width + 1, n => hexDigits width (n / 16) ++ [hexDigit (n % 16)]

@[simp] theorem length_hexDigits (width n : Nat) : (hexDigits width n).length = width := by
  induction width generalizing n with
  | zero => rfl
  | succ width ih => simp [hexDigits, ih]

theorem hexValue?_hexDigit : ∀ n < 16, hexValue? (hexDigit n) = some n := by decide

/-- Reads digits after a value already read. -/
def readHex (value : Nat) : List Char → Option Nat
  | [] => some value
  | c :: rest => match hexValue? c with
    | some d => readHex (value * 16 + d) rest
    | none => none

theorem readHex_append (value : Nat) (cs ds : List Char) :
    readHex value (cs ++ ds) = (readHex value cs).bind fun v => readHex v ds := by
  induction cs generalizing value with
  | nil => rfl
  | cons c rest ih =>
    simp only [List.cons_append, readHex]
    split
    · exact ih _
    · rfl

theorem readHex_hexDigits (width n value : Nat) (h : n < Nat.pow 16 width) :
    readHex value (hexDigits width n) = some (value * Nat.pow 16 width + n) := by
  induction width generalizing n value with
  | zero =>
    have : n = 0 := Nat.lt_one_iff.mp h
    simp [hexDigits, readHex, this, Nat.pow]
  | succ width ih =>
    have hd : n / 16 < Nat.pow 16 width := (Nat.div_lt_iff_lt_mul (by decide)).mpr h
    rw [hexDigits, readHex_append, ih _ _ hd]
    have hm : n % 16 < 16 := Nat.mod_lt _ (by decide)
    simp only [Option.bind_some, readHex, hexValue?_hexDigit _ hm, Option.some.injEq]
    have := Nat.div_add_mod n 16
    have hp : Nat.pow 16 (width + 1) = Nat.pow 16 width * 16 := rfl
    rw [Nat.add_mul, Nat.mul_assoc, ← hp]
    omega

end ModelSchema.Text
