/-! Sets of characters given by their edges: a strictly increasing table of code points in which
membership changes, starting outside the set. A code point is a member exactly when an odd number of
edges lie at or below it, so one binary search answers. The character properties the program needs
beyond ASCII, printing, word characters and decimal digits, are tables of this shape. -/

namespace PatternText.Edges

/-- The number of edges at or below `n`, known to lie between `lo` and `hi`. -/
def countUpTo (edges : Array Nat) (n lo hi : Nat) : Nat :=
  if lo < hi then
    let mid := (lo + hi) / 2
    if edges.getD mid 0 ≤ n then countUpTo edges n (mid + 1) hi else countUpTo edges n lo mid
  else lo
termination_by hi - lo

/-- Membership of a code point in the set with these edges. -/
def holds (edges : Array Nat) (n : Nat) : Bool :=
  countUpTo edges n 0 edges.size % 2 == 1

end PatternText.Edges
