import ModelSchema.Number.Binary64
import ModelSchema.Number.Spelling

/-!
# Reading floating-point text

The grammar of a decimal text: a sign, whole digits, a fraction and an exponent, each but the whole
digits optional, or one of the words for infinity and for not-a-number.
-/

namespace ModelSchema.Number

/-- The leading digits `0` to `9` and what follows them. -/
def spanDigits (cs : List Char) : List Char × List Char :=
  cs.span fun c => (Text.asciiDigit? c).isSome

/-- The exponent at the head of a text and what follows it. An `e` without digits is no exponent. -/
def takeExponent? : List Char → Option (Int × List Char)
  | [] => none
  | c :: rest =>
    if c = 'e' ∨ c = 'E' then
      let (negative, rest) := takeSign rest
      match spanDigits rest with
      | ([], _) => none
      | (ds, rest) =>
        let n : Int := (readDigits 0 ds).getD 0
        some (if negative then -n else n, rest)
    else none

/-- Whole digits, a fraction and an exponent: the coefficient, the power of ten and what follows. -/
def takeDecimal? (cs : List Char) : Option (Nat × Int × List Char) :=
  let (whole, rest) := spanDigits cs
  let (fraction, rest) := match rest with
    | '.' :: after => spanDigits after
    | _ => ([], rest)
  if whole.isEmpty && fraction.isEmpty then none
  else
    let (exponent, rest) := (takeExponent? rest).getD (0, rest)
    (readDigits 0 (whole ++ fraction)).map fun n => (n, exponent - fraction.length, rest)

/-- The nearest binary number to a plain decimal text. -/
def readPlainFloat? (cs : List Char) : Option Binary64 :=
  let (negative, rest) := takeSign cs
  match (String.ofList rest).map Char.toLower with
  | "inf" | "infinity" => some (.infinite negative)
  | "nan" => some (.undefined 0)
  | _ => match takeDecimal? rest with
    | some (n, exponent, []) => some (Binary64.ofDecimal negative n exponent)
    | _ => none

/-- The nearest binary number to a spelling of a decimal number. -/
def readFloat? (s : String) : Option Binary64 :=
  (joinGroups? false ((trimNumber s.toList).map plainDigit)).bind readPlainFloat?

end ModelSchema.Number
