/-!
Cutting lists at bounds that may be negative.

A bound below zero counts from the end of the list, and a bound beyond an end is that end. So
every pair of whole numbers names a part of every list.
-/
set_option autoImplicit false

namespace CodeSearch.Cut

/-- The place that a bound names in a list of the given length. -/
def place (length : Nat) (bound : Int) : Nat :=
  if bound < 0 then (length + bound).toNat else min bound.toNat length

/-- The part of a list between two bounds, the second not included. -/
def between {α : Type} (start stop : Int) (xs : List α) : List α :=
  (xs.take (place xs.length stop)).drop (place xs.length start)

/-- The part of a list up to a bound. -/
def upTo {α : Type} (stop : Int) (xs : List α) : List α :=
  xs.take (place xs.length stop)

end CodeSearch.Cut
