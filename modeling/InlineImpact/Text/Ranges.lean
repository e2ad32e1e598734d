/-!
Classes of characters given by a table of ranges of code points.
-/
namespace InlineImpact.Text

/-- The code point of `c` lies in one of the ranges, ends included. -/
def inRanges (table : List (Nat × Nat)) (c : Char) : Bool :=
  table.any fun (first, last) => first ≤ c.toNat && c.toNat ≤ last

end InlineImpact.Text
