import CodeSearch.Decimal.Shortest

/-!
Numbers as text.

`write` is the general printer of shortest decimals: a style says from which to which exponent
a number is written out, and how wide an exponent is otherwise. `fixed` writes a given number
of places. The whole number is told apart from the floating-point one by the `.0` that the latter
keeps.
-/
set_option autoImplicit false

namespace CodeSearch.Decimal

/-- How floating-point numbers are written. -/
structure Style where
  /-- The point may stand at most this far in front of the first digit. -/
  least : Int
  /-- The point may stand at most this far behind the first digit. -/
  most : Int
  /-- An exponent has at least this many digits. -/
  exponentDigits : Nat

/-- Numbers in messages, tables and answers: written out from 0.0001 to below 10 ^ 16, with an
exponent of two digits or more elsewhere. -/
def standard : Style := ⟨-3, 16, 2⟩

/-- A text of a given number of zeros. -/
def zeros (n : Nat) : String :=
  String.ofList (List.replicate n '0')

/-- The digits with the point behind the first `place` of them. -/
def positional (digits : String) (place : Int) : String :=
  let n : Int := digits.length
  if place ≤ 0 then "0." ++ zeros (-place).toNat ++ digits
  else if n ≤ place then digits ++ zeros (place - n).toNat ++ ".0"
  else
    String.ofList (digits.toList.take place.toNat) ++ "." ++
      String.ofList (digits.toList.drop place.toNat)

/-- The digits with the point behind the first one and an exponent. -/
def scientific (style : Style) (digits : String) (exponent : Int) : String :=
  let more := String.ofList (digits.toList.drop 1)
  let power := toString exponent.natAbs
  String.ofList (digits.toList.take 1) ++ (if more.isEmpty then "" else "." ++ more) ++ "e" ++
    (if exponent < 0 then "-" else "+") ++ zeros (style.exponentDigits - power.length) ++ power

/-- A number as the shortest text that reads back as it. -/
def write (style : Style) (x : Float) : String :=
  match parts x with
  | .nan => "nan"
  | .infinite negative => if negative then "-inf" else "inf"
  | .finite negative mantissa exponent =>
    let sign := if negative then "-" else ""
    if mantissa = 0 then sign ++ "0.0"
    else
      let d := shortest mantissa exponent
      let digits := toString d.digits
      let place := digits.length + d.exponent
      if style.least ≤ place && place ≤ style.most then sign ++ positional digits place
      else sign ++ scientific style digits (place - 1)

/-- A number with a fixed number of places, its exact value rounded, a half going to the even
neighbour. -/
def fixed (places : Nat) (x : Float) : String :=
  match parts x with
  | .nan => "nan"
  | .infinite negative => if negative then "-inf" else "inf"
  | .finite negative mantissa exponent =>
    let scaled :=
      roundDiv (mantissa * Nat.pow 10 places * Nat.pow 2 exponent.toNat)
        (Nat.pow 2 (-exponent).toNat)
    let digits := toString (scaled % Nat.pow 10 places)
    (if negative then "-" else "") ++ toString (scaled / Nat.pow 10 places) ++ "." ++
      zeros (places - digits.length) ++ digits

/-- A share as a percentage with one place. -/
def percent (x : Float) : String :=
  fixed 1 (x * 100) ++ "%"

end CodeSearch.Decimal
