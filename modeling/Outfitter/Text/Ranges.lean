/-!
Character classes given by ranges of code points.
-/

namespace Outfitter.Text

/-- Whether `n` lies in one of the closed ranges, which are in increasing order. -/
def inRanges (n : Nat) : List (Nat × Nat) → Bool
  | [] => false
  | (low, high) :: ranges => if n < low then false else n ≤ high || inRanges n ranges

end Outfitter.Text
