/-!
# Sets of characters as search trees of ranges

Properties of characters are given as increasing lists of ranges of code points. A balanced tree of the
ranges answers membership in a number of comparisons that is logarithmic in the number of ranges.
-/

namespace TagLint

/-- Disjoint ranges of code points, both ends included, ordered from left to right. -/
inductive RangeTree where
  | empty
  | node (below : RangeTree) (first last : Nat) (above : RangeTree)

namespace RangeTree

/-- Whether a code point lies in one of the ranges. -/
def contains : RangeTree → Nat → Bool
  | .empty, _ => false
  | .node below first last above, n =>
    if n < first then below.contains n else if last < n then above.contains n else true

/-- The balanced tree of an increasing list of ranges, of which it keeps the upper `depth` levels. -/
def ofRanges : (depth : Nat) → List (Nat × Nat) → RangeTree
  | 0, _ => .empty
  | depth + 1, ranges =>
    let half := ranges.length / 2
    match ranges.drop half with
    | [] => .empty
    | (first, last) :: above => .node (ofRanges depth (ranges.take half)) first last (ofRanges depth above)

end RangeTree

end TagLint
