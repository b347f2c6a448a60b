/-!
# Sets of code points

A set of code points is written as ascending, disjoint, inclusive ranges. Membership stops at the
first range that begins above the code point, so that the frequent small code points are cheap.
-/

namespace ReplCore

/-- Inclusive ranges of code points, in ascending order. -/
abbrev CodeRanges := List (Nat × Nat)

namespace CodeRanges

/-- Whether a range holds the code point `n`. -/
def covers : CodeRanges → Nat → Bool
  | [], _ => false
  | (lo, hi) :: rest, n => if n < lo then false else decide (n ≤ hi) || covers rest n

end CodeRanges

end ReplCore
