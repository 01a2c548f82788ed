/-!
# Code points

The code points of Unicode. Beside the characters there are the halves of surrogate pairs, which
stand for no character and are in no text, but can be spelt out as units of sixteen bits.
-/

namespace ModelSchema.Text

/-- A code point: a character, or half of a surrogate pair. -/
abbrev CodePoint := Fin 0x110000

/-- The character of a code point, unless it is half of a pair. -/
def CodePoint.char? (p : CodePoint) : Option Char :=
  if h : p.val.isValidChar then some (Char.ofNatAux p.val h) else none

theorem toNat_lt (c : Char) : c.toNat < 0x110000 := by
  rcases c.valid with h | h
  · exact Nat.lt_trans h (by decide)
  · exact h.2

/-- The code point of a character. -/
def codePoint (c : Char) : CodePoint := ⟨c.toNat, toNat_lt c⟩

/-- The code points of a text. -/
def codePoints (s : String) : List CodePoint := s.toList.map codePoint

theorem char?_codePoint (c : Char) : (codePoint c).char? = some c := by
  have hvalid : (codePoint c).val.isValidChar := c.valid
  rw [CodePoint.char?, dif_pos hvalid]
  rfl

end ModelSchema.Text
