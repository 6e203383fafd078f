/-!
Binary floating-point numbers as exact values.

A finite number is a sign, a whole number and a power of two; everything that reads or writes
numbers as text works on these parts with exact arithmetic on whole numbers. `single` rounds to
the coarser grid of 24 significant bits.
-/
set_option autoImplicit false

namespace CodeSearch.Decimal

/-- What a floating-point number is: not a number, an infinity, or a sign with `mantissa · 2 ^
exponent`. -/
inductive Parts where
  | nan
  | infinite (negative : Bool)
  | finite (negative : Bool) (mantissa : Nat) (exponent : Int)
deriving DecidableEq, Repr

/-- The parts of a number, read off its bits. -/
def parts (x : Float) : Parts :=
  let bits := x.toBits.toNat
  let negative := bits / Nat.pow 2 63 == 1
  let exponent : Nat := bits / Nat.pow 2 52 % Nat.pow 2 11
  let fraction : Nat := bits % Nat.pow 2 52
  if exponent = 2047 then
    if fraction = 0 then .infinite negative else .nan
  else if exponent = 0 then .finite negative fraction (-1074)
  else .finite negative (fraction + Nat.pow 2 52) ((exponent : Int) - 1075)

/-- The whole number nearest to `num / den`, a half going to the even neighbour. -/
def roundDiv (num den : Nat) : Nat :=
  let q := num / den
  let r := 2 * (num % den)
  if r < den then q else if den < r then q + 1 else q + q % 2

/-- The number `± mantissa · 2 ^ exponent`, for a mantissa of at most `2 ^ 53` and a value in the
range of normal numbers. -/
def ofParts (negative : Bool) (mantissa : Nat) (exponent : Int) : Float :=
  let sign := if negative then Nat.pow 2 63 else 0
  if mantissa = 0 then Float.ofBits (UInt64.ofNat sign)
  else
    let top := mantissa.log2
    let biased := (exponent + top + 1023).toNat
    let significand := mantissa * Nat.pow 2 (52 - top) / Nat.pow 2 (top - 52)
    Float.ofBits (UInt64.ofNat (sign + biased * Nat.pow 2 52 + (significand - Nat.pow 2 52)))

/-- Positive infinity, and its negative. -/
def infinity (negative : Bool) : Float :=
  Float.ofBits (UInt64.ofNat ((if negative then Nat.pow 2 63 else 0) + 2047 * Nat.pow 2 52))

/-- The nearest number with 24 significant bits and exponents from -126 to 127, a half going to the
even neighbour; what is too large becomes infinite. -/
def single (x : Float) : Float :=
  match parts x with
  | .finite negative mantissa exponent =>
    if mantissa = 0 then x
    else
      let grid := max (exponent + mantissa.log2 - 23) (-149)
      let kept :=
        if exponent < grid then roundDiv mantissa (Nat.pow 2 (grid - exponent).toNat)
        else mantissa * Nat.pow 2 (exponent - grid).toNat
      if kept ≠ 0 && (127 : Int) < grid + kept.log2 then infinity negative
      else ofParts negative kept grid
  | _ => x

/-- The number nearest to `num / den`, a half going to the even neighbour; zero if `den` is. -/
def ratio (num den : Nat) : Float :=
  if num = 0 ∨ den = 0 then 0
  else
    let shift : Int := 52 + den.log2 - num.log2
    let scaled (shift : Int) : Nat × Nat :=
      (num * Nat.pow 2 shift.toNat, den * Nat.pow 2 (-shift).toNat)
    let shift := if (scaled shift).1 / (scaled shift).2 < Nat.pow 2 52 then shift + 1 else shift
    ofParts false (roundDiv (scaled shift).1 (scaled shift).2) (-shift)

end CodeSearch.Decimal
