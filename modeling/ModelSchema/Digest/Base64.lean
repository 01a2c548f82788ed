/-!
# Base64

Bytes in groups of three as four characters of an alphabet of 64, padded with equals signs. The
reader is forgiving: characters outside the alphabet are passed over, and what follows a complete
padding is not looked at.
-/

namespace ModelSchema.Digest

def base64Alphabet : List Char :=
  "ABCDEFGHIJKLMNOPQRSTUVWXYZabcdefghijklmnopqrstuvwxyz0123456789+/".toList

/-- The character of a number below 64. -/
def base64Char (n : Nat) : Char := base64Alphabet.getD n '='

/-- The number that a character of the alphabet stands for. -/
def base64Value? (c : Char) : Option Nat := base64Alphabet.idxOf? c

/-- The characters of a list of bytes. -/
def base64Encode : List UInt8 → List Char
  | [] => []
  | [a] =>
    [base64Char (a.toNat / 4), base64Char (a.toNat % 4 * 16), '=', '=']
  | [a, b] =>
    [base64Char (a.toNat / 4), base64Char (a.toNat % 4 * 16 + b.toNat / 16),
      base64Char (b.toNat % 16 * 4), '=']
  | a :: b :: c :: rest =>
    base64Char (a.toNat / 4) :: base64Char (a.toNat % 4 * 16 + b.toNat / 16) ::
      base64Char (b.toNat % 16 * 4 + c.toNat / 64) :: base64Char (c.toNat % 64) :: base64Encode rest

/-- Reads characters when `place` of the current group of four have been read, the last of which
left the bits `left` over, and `pads` equals signs have followed. A group that is neither complete
nor padded is an error. -/
def base64DecodeFrom (place left pads : Nat) : List Char → Option (List UInt8)
  | [] => if place = 0 then some [] else none
  | c :: rest =>
    if c = '=' then
      if 2 ≤ place then
        if 4 ≤ place + pads + 1 then some [] else base64DecodeFrom place left (pads + 1) rest
      else base64DecodeFrom place left pads rest
    else match base64Value? c with
      | none => base64DecodeFrom place left pads rest
      | some n => match place with
        | 0 => base64DecodeFrom 1 n 0 rest
        | 1 => (base64DecodeFrom 2 (n % 16) 0 rest).map (UInt8.ofNat (left * 4 + n / 16) :: ·)
        | 2 => (base64DecodeFrom 3 (n % 4) 0 rest).map (UInt8.ofNat (left * 16 + n / 4) :: ·)
        | _ => (base64DecodeFrom 0 0 0 rest).map (UInt8.ofNat (left * 64 + n) :: ·)

/-- The bytes that a text stands for. Only texts of ASCII stand for any. -/
def base64Decode? (cs : List Char) : Option (List UInt8) :=
  if cs.all fun c => c.toNat < 0x80 then base64DecodeFrom 0 0 0 cs else none

end ModelSchema.Digest
