import ModelSchema.Json.KeyOrder
import ModelSchema.Number.Shortest
import ModelSchema.Text.CodePoint
import ModelSchema.Text.Hex
import ModelSchema.Value.Display

/-!
# Writing JSON

Values are written as JSON in ASCII: every other character is spelt out in units of sixteen bits.
Two styles are in use. The lenient one keeps the order of mappings, puts blanks between items, and
writes a value that JSON does not know as its text. The canonical one sorts mappings by their keys,
has no blanks, and refuses such a value.
-/

namespace ModelSchema.Json

/-- One unit of sixteen bits, spelt out. -/
def unitEscape (unit : Nat) : List Char := '\\' :: 'u' :: Text.hexDigits 4 unit

/-- A character inside a string. -/
def escapeChar (c : Char) : List Char :=
  if c = '"' then ['\\', '"']
  else if c = '\\' then ['\\', '\\']
  else if c = '\n' then ['\\', 'n']
  else if c = '\r' then ['\\', 'r']
  else if c = '\t' then ['\\', 't']
  else if c = '\x08' then ['\\', 'b']
  else if c = '\x0c' then ['\\', 'f']
  else if 0x20 ≤ c.toNat ∧ c.toNat < 0x7F then [c]
  else if c.toNat < 0x10000 then unitEscape c.toNat
  else
    unitEscape (0xD800 + (c.toNat - 0x10000) / 0x400) ++
      unitEscape (0xDC00 + (c.toNat - 0x10000) % 0x400)

/-- A code point inside a string. Half of a surrogate pair is the unit that it is in the pair. -/
def escapePoint (p : Text.CodePoint) : List Char :=
  match p.char? with
  | some c => escapeChar c
  | none => unitEscape p.val

/-- A string of the given code points, with its quotes. -/
def pointsText (points : List Text.CodePoint) : List Char :=
  '"' :: points.flatMap escapePoint ++ ['"']

/-- A text as a string with its quotes. -/
def stringText (s : String) : List Char := pointsText (Text.codePoints s)

theorem stringText_eq (s : String) :
    stringText s = '"' :: s.toList.flatMap escapeChar ++ ['"'] := by
  have hescape : escapePoint ∘ Text.codePoint = escapeChar := by
    funext c
    rw [Function.comp_apply, escapePoint, Text.char?_codePoint]
  rw [stringText, pointsText, Text.codePoints, List.flatMap_map]
  exact congrArg (fun f => '"' :: s.toList.flatMap f ++ ['"']) hescape

/-- A floating-point number; the three that are not finite have names. -/
def floatText : Number.Binary64 → String
  | .infinite negative => if negative then "-Infinity" else "Infinity"
  | .undefined _ => "NaN"
  | x => x.text

def boolText (b : Bool) : String := if b then "true" else "false"

/-- The digits of an integer, if there are not too many. -/
def writeInteger (n : Int) : Except WriteError (List Char) :=
  if Number.isShort n then .ok (Number.integerDigits n) else .error .longInteger

theorem writeInteger_eq_ok_iff {n : Int} {cs : List Char} :
    writeInteger n = .ok cs ↔ Number.isShort n = true ∧ cs = Number.integerDigits n := by
  unfold writeInteger
  constructor
  · intro h
    split at h
    · exact ⟨‹_›, (Except.ok.inj h).symm⟩
    · cases h
  · rintro ⟨hn, rfl⟩
    rw [if_pos hn]

/-- The property name that a key of a mapping stands for. -/
def keyText : Value → Except WriteError String
  | .text s => .ok s
  | .int n => (writeInteger n).map String.ofList
  | .float x => .ok (floatText x)
  | .bool b => .ok (boolText b)
  | .null => .ok "null"
  | v => .error (.badKey v.qualifiedTypeName)

/-- How JSON is laid out. -/
structure Style where
  itemSeparator : List Char
  keySeparator : List Char
  /-- Whether mappings are sorted by their keys. -/
  sorted : Bool
  /-- Whether a value that JSON does not know is written as its text. -/
  lenient : Bool

def Style.readable : Style := ⟨[',', ' '], [':', ' '], false, true⟩

def Style.canonical : Style := ⟨[','], [':'], true, false⟩

/-- Texts with a separator between them. -/
def separated (separator : List Char) (texts : List (List Char)) : List Char :=
  (texts.intersperse separator).flatten

/-- An array of the given items. -/
def arrayText (style : Style) (items : List (List Char)) : List Char :=
  '[' :: separated style.itemSeparator items ++ [']']

/-- A property: a key and the text of its value. -/
def propertyText (style : Style) (key : Value) (value : List Char) :
    Except WriteError (List Char) :=
  (keyText key).map fun name => stringText name ++ style.keySeparator ++ value

/-- An object of the given entries, each with its property or the reason why it has none. -/
def objectText (style : Style) (entries : List (Value × Except WriteError (List Char))) :
    Except WriteError (List Char) := do
  let ordered ← if style.sorted then sortEntries entries else pure entries
  let properties ← ordered.mapM (·.2)
  pure ('\x7b' :: separated style.itemSeparator properties ++ ['\x7d'])

mutual

/-- The JSON text of a value. -/
def write (style : Style) (v : Value) : Except WriteError (List Char) :=
  match v with
  | .null => .ok "null".toList
  | .bool b => .ok (boolText b).toList
  | .int n => writeInteger n
  | .float x => .ok (floatText x).toList
  | .text s => .ok (stringText s)
  | .list items => (writeItems style items).map (arrayText style)
  | .tuple items => (writeItems style items).map (arrayText style)
  | .mapping entries => objectText style (writeEntries style entries)
  | .knot before key after _ =>
    objectText style
      (writeEntries style before ++ (key, (keyText key).bind fun _ => .error .circular) ::
        writeEntries style after)
  | v =>
    if style.lenient then if v.isShowable then .ok (stringText v.plain) else .error .longInteger
    else .error (.unknownType v.typeName)
termination_by structural v

def writeItems (style : Style) (items : List Value) : Except WriteError (List (List Char)) :=
  match items with
  | [] => .ok []
  | v :: rest => (write style v).bind fun item => (writeItems style rest).map (item :: ·)
termination_by structural items

/-- Every entry with its property, or with the reason why it has none. -/
def writeEntries (style : Style) (entries : List (Value × Value)) :
    List (Value × Except WriteError (List Char)) :=
  match entries with
  | [] => []
  | (key, v) :: rest =>
    -- the key is looked at before the value
    (key, (keyText key).bind fun _ => (write style v).bind (propertyText style key)) ::
      writeEntries style rest
termination_by structural entries

end

/-- The readable JSON text of a value. -/
def readableText (v : Value) : Except WriteError String := (write .readable v).map String.ofList

/-- The canonical JSON text of a value. -/
def canonicalText (v : Value) : Except WriteError (List Char) := write .canonical v

end ModelSchema.Json
