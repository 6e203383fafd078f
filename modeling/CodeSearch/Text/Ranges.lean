/-!
Sets of code points given as ranges.

The character tables are lists of closed ranges in increasing order. Membership is one pass over
the list; it stops at the first range that begins above the code point.
-/
set_option autoImplicit false

namespace CodeSearch.Text

/-- The first range that can hold `n`, if it does: its two ends. -/
def rangeOf? : List (Nat × Nat) → Nat → Option (Nat × Nat)
  | [], _ => none
  | (low, high) :: rest, n =>
    if n < low then none else if n ≤ high then some (low, high) else rangeOf? rest n

/-- Whether `n` lies in one of the ranges. -/
def inRanges (ranges : List (Nat × Nat)) (n : Nat) : Bool :=
  (rangeOf? ranges n).isSome

end CodeSearch.Text
