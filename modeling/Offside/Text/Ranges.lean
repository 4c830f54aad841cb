/-!
# Tables of character ranges

Properties of characters that a standard lists are kept as tables of closed ranges of code points in
ascending order.

* `inRanges`: whether a code point lies in one of the ranges of a table.
-/

namespace Offside.Text

/-- Whether a code point lies in one of the closed ranges of a table. -/
def inRanges (table : List (Nat × Nat)) (code : Nat) : Bool :=
  table.any fun range => range.1 ≤ code && code ≤ range.2

end Offside.Text
