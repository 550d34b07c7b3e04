/-!
# Classes of characters given by ranges

Classes of characters outside ASCII are tables of ranges of code points.

## Main definitions

* `inRanges`: membership of a character in a table of ranges.
-/

namespace ConditionalStyle.Text

/-- Whether the code point of `c` lies in one of the ranges, ends included. -/
def inRanges (table : List (Nat × Nat)) (c : Char) : Bool :=
  table.any fun r => r.1 ≤ c.toNat && c.toNat ≤ r.2

end ConditionalStyle.Text
