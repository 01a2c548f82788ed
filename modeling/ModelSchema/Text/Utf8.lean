/-!
# UTF-8

The characters that a list of bytes stands for. Every character has one form only, the shortest, and
surrogates and numbers beyond the last code point have none.
-/

namespace ModelSchema.Text

/-- How many continuation bytes follow a leading byte, the bits that it holds, and the least code
point that needs this form. -/
def leadingByte? (b : Nat) : Option (Nat × Nat × Nat) :=
  if b < 0x80 then some (0, b, 0)
  else if b < 0xC0 then none
  else if b < 0xE0 then some (1, b - 0xC0, 0x80)
  else if b < 0xF0 then some (2, b - 0xE0, 0x800)
  else if b < 0xF8 then some (3, b - 0xF0, 0x10000)
  else none

/-- The number that a value and the bits of continuation bytes make. -/
def continued? : Nat → Nat → List UInt8 → Option Nat
  | 0, value, _ => some value
  | _ + 1, _, [] => none
  | count + 1, value, b :: rest =>
    if 0x80 ≤ b.toNat ∧ b.toNat < 0xC0 then continued? count (value * 64 + (b.toNat - 0x80)) rest
    else none

/-- The character at the head of a list of bytes, and how many bytes it takes behind the first. -/
def firstCharacter? (b : UInt8) (rest : List UInt8) : Option (Char × Nat) :=
  (leadingByte? b.toNat).bind fun (count, bits, least) =>
  (continued? count bits rest).bind fun code =>
    if least ≤ code ∧ code ≤ 0x10FFFF ∧ ¬(0xD800 ≤ code ∧ code ≤ 0xDFFF) then
      some (Char.ofNat code, count)
    else none

/-- The characters of a list of bytes of which the first `skip` have been read already. -/
def decodeUtf8From : Nat → List UInt8 → Option (List Char)
  | _, [] => some []
  | skip + 1, _ :: rest => decodeUtf8From skip rest
  | 0, b :: rest =>
    match firstCharacter? b rest with
    | none => none
    | some (c, count) => (decodeUtf8From count rest).map (c :: ·)

/-- The characters of a list of bytes. -/
def decodeUtf8 (bytes : List UInt8) : Option (List Char) := decodeUtf8From 0 bytes

/-- The bytes of a text of ASCII. -/
def asciiBytes (cs : List Char) : List UInt8 := cs.map fun c => UInt8.ofNat c.toNat

theorem firstCharacter?_of_lt {b : UInt8} {rest : List UInt8} (h : b.toNat < 0x80) :
    firstCharacter? b rest = some (Char.ofNat b.toNat, 0) := by
  have h1 : b.toNat ≤ 0x10FFFF := by omega
  have h2 : ¬(0xD800 ≤ b.toNat ∧ b.toNat ≤ 0xDFFF) := by omega
  simp [firstCharacter?, leadingByte?, continued?, h]
  omega

theorem decodeUtf8_asciiBytes {cs : List Char} (h : ∀ c ∈ cs, c.toNat < 0x80) :
    decodeUtf8 (asciiBytes cs) = some cs := by
  induction cs with
  | nil => rfl
  | cons c rest ih =>
    have hc : c.toNat < 0x80 := h c (by simp)
    have hb : (UInt8.ofNat c.toNat).toNat = c.toNat := by
      simp only [UInt8.toNat_ofNat']
      omega
    have hr : decodeUtf8From 0 (asciiBytes rest) = some rest := ih fun d hd => h d (by simp [hd])
    have hf := @firstCharacter?_of_lt (UInt8.ofNat c.toNat) (asciiBytes rest) (by omega)
    rw [hb] at hf
    simp [decodeUtf8, asciiBytes, decodeUtf8From]
    simp only [asciiBytes] at hf hr
    simp [hf, hr]

end ModelSchema.Text
