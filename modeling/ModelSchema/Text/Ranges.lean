/-!
# Ranges of code points

The character classes of this library are tables of closed ranges of code points. A table is read by
one function, so that a class is its table and nothing else.
-/

namespace ModelSchema.Text

/-- Whether the character lies in one of the closed ranges of the table. -/
def inRanges (table : List (Nat × Nat)) (c : Char) : Bool :=
  table.any fun range => range.1 ≤ c.toNat && c.toNat ≤ range.2

end ModelSchema.Text
