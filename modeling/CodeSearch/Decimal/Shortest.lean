import CodeSearch.Decimal.Binary

/-!
The shortest decimal that reads back as a given number.

The reals that round to `m · 2 ^ q` form an interval; its ends belong to it exactly if `m` is even.
For one significant digit, two, and so on up to seventeen, the two neighbours of the number on the
decimal grid with that many digits are tried. The first grid with a neighbour inside the interval
gives the answer: of two neighbours the nearer one, or the even one at equal distance. All of it is
exact arithmetic on whole numbers.
-/
set_option autoImplicit false

namespace CodeSearch.Decimal

/-- A decimal: `digits · 10 ^ exponent`. -/
structure Scaled where
  digits : Nat
  exponent : Int
deriving DecidableEq, Repr

/-- How many decimal digits a whole number is written with. -/
def digitCount (n : Nat) : Nat :=
  (Nat.toDigits 10 n).length

/-- The exponent of the leading digit of `num / den`. -/
def leadingExponent (num den : Nat) : Int :=
  if den ≤ num then (digitCount (num / den) : Int) - 1
  else
    let d := digitCount (den / num)
    if den ≤ num * Nat.pow 10 (d - 1) then 1 - (d : Int) else -(d : Int)

/-- A number with the interval that rounds to it, in units of `unit.1 / unit.2`. -/
structure Rounding where
  low : Nat
  value : Nat
  high : Nat
  closed : Bool
  unit : Nat × Nat

/-- The interval of the number `m · 2 ^ q`, in quarters of its last place; below a power of two the
next number is only half as far away. -/
def Rounding.of (m : Nat) (q : Int) : Rounding where
  low := if m = Nat.pow 2 52 ∧ q ≠ -1074 then 4 * m - 1 else 4 * m - 2
  value := 4 * m
  high := 4 * m + 2
  closed := m % 2 == 0
  unit := if 2 ≤ q then (Nat.pow 2 (q - 2).toNat, 1) else (1, Nat.pow 2 (2 - q).toNat)

/-- Whether the decimal lies in the interval. -/
def Rounding.holds (r : Rounding) (d : Scaled) : Bool :=
  let num := d.digits * Nat.pow 10 d.exponent.toNat * r.unit.2
  let den := Nat.pow 10 (-d.exponent).toNat * r.unit.1
  if r.closed then r.low * den ≤ num && num ≤ r.high * den
  else r.low * den < num && num < r.high * den

/-- The answer on the grid of multiples of `10 ^ exponent`, if a neighbour of the number on it
lies in the interval. -/
def Rounding.onGrid (r : Rounding) (exponent : Int) : Option Scaled :=
  let num := r.value * r.unit.1 * Nat.pow 10 (-exponent).toNat
  let den := r.unit.2 * Nat.pow 10 exponent.toNat
  let below : Scaled := ⟨num / den, exponent⟩
  let above : Scaled := ⟨num / den + 1, exponent⟩
  match r.holds below, r.holds above with
  | true, true => some ⟨roundDiv num den, exponent⟩
  | true, false => some below
  | false, true => some above
  | false, false => none

/-- The first grid that has an answer, `fuel` grids from the given one on. -/
def Rounding.search (r : Rounding) : Nat → Int → Option Scaled
  | 0, _ => none
  | fuel + 1, exponent =>
    match r.onGrid exponent with
    | some d => some d
    | none => r.search fuel (exponent - 1)

/-- The decimal without zeros at its end. -/
def Scaled.strip : Nat → Scaled → Scaled
  | 0, d => d
  | fuel + 1, d =>
    if d.digits ≠ 0 ∧ d.digits % 10 = 0 then strip fuel ⟨d.digits / 10, d.exponent + 1⟩ else d

/-- The shortest decimal that rounds to `m · 2 ^ q`, for a positive `m`. Seventeen digits are always
enough; the search gives up after that. -/
def shortest (m : Nat) (q : Int) : Scaled :=
  let r := Rounding.of m q
  let leading := leadingExponent (r.value * r.unit.1) r.unit.2
  match r.search 17 leading with
  | some d => d.strip 20
  | none => ⟨m, q⟩

end CodeSearch.Decimal
