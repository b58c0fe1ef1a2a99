/-! Classes of characters given by a table: ranges of code points in ascending order, both ends included. -/

namespace Stencil.Text

/-- Whether a range of the table holds the character. -/
def inRanges (ranges : List (Nat × Nat)) (c : Char) : Bool :=
  ranges.any fun (low, high) => low ≤ c.toNat && c.toNat ≤ high

end Stencil.Text
