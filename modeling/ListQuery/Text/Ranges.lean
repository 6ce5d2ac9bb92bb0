/-!
# Sets of code points

A Unicode property is kept as the ascending list of its ranges.
-/

namespace ListQuery.Text

/-- disjoint ascending ranges of code points, both ends included -/
abbrev CodeRanges := List (Nat × Nat)

def CodeRanges.holds : CodeRanges → Nat → Bool
  | [], _ => false
  | (lo, hi) :: rest, n => if n < lo then false else n ≤ hi || CodeRanges.holds rest n

end ListQuery.Text
