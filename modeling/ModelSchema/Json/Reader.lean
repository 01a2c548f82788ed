import ModelSchema.Json.Error
import ModelSchema.Number.FloatText
import ModelSchema.Text.Hex
import ModelSchema.Value.Equality

/-!
# Reading JSON

The reader of JSON texts, extended by the names of the three numbers that are not finite. Every
error says how many characters stand before it. A property that is repeated keeps its first place
and takes its last value.
-/

namespace ModelSchema.Json

/-- A result of reading, with the position behind it and what follows there. -/
abbrev Reading (α : Type) := Except ReadError (α × Nat × List Char)

def isSpace (c : Char) : Bool := c == ' ' || c == '\t' || c == '\n' || c == '\r'

/-- The next position that holds no white space. -/
def skipSpace (position : Nat) (cs : List Char) : Nat × List Char :=
  (position + (cs.takeWhile isSpace).length, cs.dropWhile isSpace)

/-- The unit that four hexadecimal digits stand for. -/
def readUnit? (cs : List Char) : Option Nat := Text.readHex 0 (cs.take 4)

def isHighSurrogate (unit : Nat) : Bool := 0xD800 ≤ unit && unit < 0xDC00

def isLowSurrogate (unit : Nat) : Bool := 0xDC00 ≤ unit && unit < 0xE000

/-- The character of a single unit. Half of a pair stands for no character of a text, so the
replacement character is read instead. -/
def unitChar (unit : Nat) : Char :=
  if isHighSurrogate unit || isLowSurrogate unit then Char.ofNat 0xFFFD else Char.ofNat unit

def pairChar (high low : Nat) : Char :=
  Char.ofNat (0x10000 + (high - 0xD800) * 0x400 + (low - 0xDC00))

/-- The character that a letter behind a backslash stands for. -/
def simpleEscape? : Char → Option Char
  | '"' => some '"'
  | '\\' => some '\\'
  | '/' => some '/'
  | 'b' => some '\x08'
  | 'f' => some '\x0c'
  | 'n' => some '\n'
  | 'r' => some '\r'
  | 't' => some '\t'
  | _ => none

/-- Reads the units behind `\u`. The character that they stand for comes with the number of
characters read from the `u` on; `position` is that of the `u`. Digits count only if something
follows them. -/
def readUnits (position : Nat) (digits : List Char) : Except ReadError (Char × Nat) :=
  if (digits.drop 4).isEmpty then .error ⟨.badUnicodeEscape, position⟩
  else match readUnit? digits with
    | none => .error ⟨.badUnicodeEscape, position⟩
    | some unit =>
      let second := digits.drop 4
      if isHighSurrogate unit && second.take 2 == ['\\', 'u'] && !(second.drop 6).isEmpty then
        match readUnit? (second.drop 2) with
        | none => .error ⟨.badUnicodeEscape, position + 6⟩
        | some low =>
          if isLowSurrogate low then .ok (pairChar unit low, 11) else .ok (unitChar unit, 5)
      else .ok (unitChar unit, 5)

/-- Reads what follows a backslash: the character that it stands for and the number of characters
read. -/
def readEscape (start position : Nat) : List Char → Except ReadError (Char × Nat)
  | [] => .error ⟨.unterminatedString, start⟩
  | c :: rest =>
    if c = 'u' then readUnits position rest
    else match simpleEscape? c with
      | some plain => .ok (plain, 1)
      | none => .error ⟨.unknownEscape, position - 1⟩

/-- Reads a string up to its closing quote. `start` is the position of the opening quote, and `skip`
characters belong to an escape that has been read already. -/
def readString (start : Nat) : Nat → Nat → List Char → Reading (List Char)
  | _, _, [] => .error ⟨.unterminatedString, start⟩
  | skip + 1, position, _ :: rest => readString start skip (position + 1) rest
  | 0, position, c :: rest =>
    if c = '"' then .ok ([], position + 1, rest)
    else if c = '\\' then
      match readEscape start (position + 1) rest with
      | .error e => .error e
      | .ok (plain, count) =>
        (readString start count (position + 1) rest).map fun (cs, after) => (plain :: cs, after)
    else if c.toNat < 0x20 then .error ⟨.controlCharacter, position⟩
    else (readString start 0 (position + 1) rest).map fun (cs, after) => (c :: cs, after)

/-- The whole digits of a number: a zero alone, or digits that start with no zero. -/
def takeWhole : List Char → List Char × List Char
  | '0' :: rest => (['0'], rest)
  | cs => Number.spanDigits cs

/-- A point with digits behind it, or nothing. -/
def takeFraction (cs : List Char) : List Char × List Char :=
  match cs with
  | '.' :: rest => match Number.spanDigits rest with
    | ([], _) => ([], cs)
    | (ds, after) => (ds, after)
  | _ => ([], cs)

/-- Reads a number: an integer, or a floating-point number if there is a fraction or an exponent. -/
def readNumber? (cs : List Char) : Option (Value × List Char) :=
  let (negative, rest) := match cs with
    | '-' :: rest => (true, rest)
    | _ => (false, cs)
  let (whole, rest) := takeWhole rest
  if whole.isEmpty then none
  else
    let (fraction, behind) := takeFraction rest
    let n := (Number.readDigits 0 (whole ++ fraction)).getD 0
    let exponent? := Number.takeExponent? behind
    if fraction.isEmpty && exponent?.isNone then
      some (.int (if negative then -(n : Int) else n), behind)
    else
      let (exponent, behind) := exponent?.getD (0, behind)
      some (.float (Number.Binary64.ofDecimal negative n (exponent - fraction.length)), behind)

/-- The values that have names. -/
def names : List (String × Value) :=
  [("null", .null), ("true", .bool true), ("false", .bool false), ("NaN", .float (.undefined 0)),
   ("Infinity", .float (.infinite false)), ("-Infinity", .float (.infinite true))]

/-- Reads a named value or a number. -/
def readAtom (position : Nat) (cs : List Char) : Reading Value :=
  match names.find? fun row => row.1.toList.isPrefixOf cs with
  | some (name, v) => .ok (v, position + name.length, cs.drop name.length)
  | none => match readNumber? cs with
    | some (.int n, rest) =>
      if Number.isShort n then .ok (.int n, position + (cs.length - rest.length), rest)
      else .error ⟨.longInteger (Number.digitCount n), position⟩
    | some (v, rest) => .ok (v, position + (cs.length - rest.length), rest)
    | none => .error ⟨.expectedValue, position⟩

mutual

/-- Reads a value. -/
def readValue (fuel : Nat) (position : Nat) (cs : List Char) : Reading Value :=
  match fuel with
  | 0 => .error ⟨.expectedValue, position⟩
  | fuel + 1 =>
    match cs with
    | '"' :: rest =>
      (readString position 0 (position + 1) rest).map
        fun (s, after) => (.text (String.ofList s), after)
    | '\x7b' :: rest =>
      match skipSpace (position + 1) rest with
      | (position, '\x7d' :: rest) => .ok (.mapping [], position + 1, rest)
      | (position, rest) =>
        (readMembers fuel [] position rest).map fun (entries, after) => (.mapping entries, after)
    | '[' :: rest =>
      match skipSpace (position + 1) rest with
      | (position, ']' :: rest) => .ok (.list [], position + 1, rest)
      | (position, rest) =>
        (readElements fuel position rest).map fun (items, after) => (.list items, after)
    | cs => readAtom position cs
termination_by structural fuel

/-- Reads the properties of an object from a key on, after those already read. -/
def readMembers (fuel : Nat) (entries : List (Value × Value)) (position : Nat) (cs : List Char) :
    Reading (List (Value × Value)) :=
  match fuel with
  | 0 => .error ⟨.expectedValue, position⟩
  | fuel + 1 =>
    match cs with
    | '"' :: rest =>
      (readString position 0 (position + 1) rest).bind fun (key, position, rest) =>
      match skipSpace position rest with
      | (position, ':' :: rest) =>
        let (position, rest) := skipSpace (position + 1) rest
        (readValue fuel position rest).bind fun (v, position, rest) =>
        let entries := Table.put (.text (String.ofList key)) v entries
        match skipSpace position rest with
        | (position, '\x7d' :: rest) => .ok (entries, position + 1, rest)
        | (position, ',' :: rest) =>
          let (position, rest) := skipSpace (position + 1) rest
          readMembers fuel entries position rest
        | (position, _) => .error ⟨.expectedComma, position⟩
      | (position, _) => .error ⟨.expectedColon, position⟩
    | _ => .error ⟨.expectedPropertyName, position⟩
termination_by structural fuel

/-- Reads the items of an array from one on. -/
def readElements (fuel : Nat) (position : Nat) (cs : List Char) : Reading (List Value) :=
  match fuel with
  | 0 => .error ⟨.expectedValue, position⟩
  | fuel + 1 =>
    (readValue fuel position cs).bind fun (v, position, rest) =>
    match skipSpace position rest with
    | (position, ']' :: rest) => .ok ([v], position + 1, rest)
    | (position, ',' :: rest) =>
      let (position, rest) := skipSpace (position + 1) rest
      (readElements fuel position rest).map fun (items, after) => (v :: items, after)
    | (position, _) => .error ⟨.expectedComma, position⟩
termination_by structural fuel

end

/-- Reads a text that is one value with white space around it. No value is nested deeper than its
text is long, so the fuel is enough. -/
def read (cs : List Char) : Except ReadError Value :=
  if cs.head? = some '\uFEFF' then .error ⟨.byteOrderMark, 0⟩
  else do
    let (position, rest) := skipSpace 0 cs
    let (v, position, rest) ← readValue (2 * cs.length + 2) position rest
    match skipSpace position rest with
    | (_, []) => .ok v
    | (position, _) => .error ⟨.extraData, position⟩

end ModelSchema.Json
