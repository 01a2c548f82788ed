import ModelSchema.Number.Digits
import ModelSchema.Text.Blank

/-!
# Spellings of numbers

A number may be spelled with blanks around it, with digits of any script, and with single
underscores between its digits. Main statement: a spelling in the digits `0` to `9` is its own plain
form.
-/

namespace ModelSchema.Number

/-- The blanks that may surround a number: all but the four separator controls. -/
def isNumberBlank (c : Char) : Bool := Text.isBlank c && !(0x1C ≤ c.toNat && c.toNat ≤ 0x1F)

/-- The characters without the blanks at either end. -/
def trimNumber (cs : List Char) : List Char :=
  ((cs.dropWhile isNumberBlank).reverse.dropWhile isNumberBlank).reverse

/-- An optional sign, true for minus, and what follows it. -/
def takeSign : List Char → Bool × List Char
  | '-' :: rest => (true, rest)
  | '+' :: rest => (false, rest)
  | cs => (false, cs)

/-- The digit among `0` to `9` with the value of a digit of any script; other characters stay. -/
def plainDigit (c : Char) : Char :=
  match Text.digitValue? c with
  | some d => digitChar d
  | none => c

/-- Joins groups of digits: an underscore is dropped if a digit stands on either side of it, and
there must be no other. `afterDigit` tells whether a digit stands before the text. -/
def joinGroups? (afterDigit : Bool) : List Char → Option (List Char)
  | [] => some []
  | '_' :: rest =>
    if afterDigit && (rest.head?.bind Text.asciiDigit?).isSome then joinGroups? false rest else none
  | c :: rest => (joinGroups? (Text.asciiDigit? c).isSome rest).map (c :: ·)

theorem digitValue?_digitChar : ∀ n < 10, Text.digitValue? (digitChar n) = some n := by decide

theorem plainDigit_digitChar {n : Nat} (h : n < 10) : plainDigit (digitChar n) = digitChar n := by
  simp [plainDigit, digitValue?_digitChar n h]

/-- A text without underscores is one group. -/
theorem joinGroups?_of_not_mem {cs : List Char} (h : '_' ∉ cs) (afterDigit : Bool) :
    joinGroups? afterDigit cs = some cs := by
  induction cs generalizing afterDigit with
  | nil => rfl
  | cons c rest ih =>
    simp only [List.mem_cons, not_or] at h
    rw [joinGroups?]
    · simp [ih h.2]
    · intro hc
      exact h.1 hc.symm

end ModelSchema.Number
