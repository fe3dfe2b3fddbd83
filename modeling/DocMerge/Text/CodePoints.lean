/-!
# Sets of code points

A set is a list of closed ranges in ascending order.
-/

namespace DocMerge.Text

def inRanges (ranges : List (Nat × Nat)) (n : Nat) : Bool :=
  ranges.any (fun range => range.1 ≤ n && n ≤ range.2)

end DocMerge.Text
