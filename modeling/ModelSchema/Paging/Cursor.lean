import ModelSchema.Digest.Base64
import ModelSchema.Number.IntegerText
import ModelSchema.Text.Utf8

/-!
# Cursors

The place of an item in a list, in a text that clients hand back as it is: the Base64 form of a
fixed head and the index of the item. Of a text that comes back only the length of the head is
checked; what follows it is read as an integer of any length, as lists of any length have cursors.
-/

namespace ModelSchema.Paging

/-- The head of all cursors. -/
def cursorHead : List Char := "arrayconnection:".toList

/-- The cursor of the item with a given index. -/
def cursor (index : Nat) : String :=
  String.ofList (Digest.base64Encode (Text.asciiBytes (cursorHead ++ Number.digits index)))

/-- The index that a text stands for, if it stands for any. -/
def cursorIndex? (text : String) : Option Int :=
  (Digest.base64Decode? text.toList).bind fun bytes =>
    (Text.decodeUtf8 bytes).bind fun cs => Number.readInteger? (cs.drop cursorHead.length)

end ModelSchema.Paging
