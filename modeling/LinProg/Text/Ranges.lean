/-!
# Sets of characters

A property of characters is listed as ranges of code points in increasing order.
-/

namespace LinProg.Text

/-- Whether a code point lies in one of the ranges, whose ends are included. -/
def inRanges (ranges : List (Nat × Nat)) (code : Nat) : Bool :=
  ranges.any fun (first, last) => first ≤ code && code ≤ last

end LinProg.Text
