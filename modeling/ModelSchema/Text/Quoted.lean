import ModelSchema.Text.Hex
import ModelSchema.Text.Printable

/-!
# Quoted text

Text inside a message stands between quotes with the unprintable characters spelt out. The quotes
are single unless the text holds a single quote and no double one; then nothing inside needs a
backslash.
-/

namespace ModelSchema.Text

/-- The quote that needs the fewer backslashes, single where both would do. -/
def chooseQuote (holds : Char → Bool) : Char :=
  if holds '\x27' && !holds '"' then '"' else '\x27'

/-- A character inside the given quotes. -/
def quotedChar (quote c : Char) : List Char :=
  if c = quote || c = '\\' then ['\\', c]
  else if c = '\n' then ['\\', 'n']
  else if c = '\r' then ['\\', 'r']
  else if c = '\t' then ['\\', 't']
  else if isPrintable c then [c]
  else if c.toNat < 0x100 then '\\' :: 'x' :: hexDigits 2 c.toNat
  else if c.toNat < 0x10000 then '\\' :: 'u' :: hexDigits 4 c.toNat
  else '\\' :: 'U' :: hexDigits 8 c.toNat

/-- The text between quotes. -/
def quote (s : String) : String :=
  let mark := chooseQuote s.toList.contains
  String.ofList (mark :: s.toList.flatMap (quotedChar mark) ++ [mark])

/-- A byte inside the given quotes: everything outside printable ASCII is spelt out. -/
def quotedByte (quote : Char) (b : UInt8) : List Char :=
  if b.toNat < 0x7F then quotedChar quote (Char.ofNat b.toNat)
  else '\\' :: 'x' :: hexDigits 2 b.toNat

/-- Bytes between quotes, after the letter that tells them from text. -/
def quoteBytes (bytes : List UInt8) : String :=
  let mark := chooseQuote fun c => bytes.any fun b => b.toNat == c.toNat
  String.ofList ('b' :: mark :: bytes.flatMap (quotedByte mark) ++ [mark])

/-- The items between commas, in the given brackets. -/
def bracketed (opening : String) (items : List String) (closing : String) : String :=
  opening ++ ", ".intercalate items ++ closing

def openingBrace : String := "\x7b"

def closingBrace : String := "\x7d"

end ModelSchema.Text
