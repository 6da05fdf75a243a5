/-! Sets of characters given as ascending ranges of code points. -/
namespace AssetBlocks.Text

/-- The first and the last code point of each range. -/
abbrev RangeTable := List (Nat × Nat)

def RangeTable.contains (table : RangeTable) (c : Char) : Bool :=
  table.any fun range => range.1 ≤ c.toNat && c.toNat ≤ range.2

end AssetBlocks.Text
