import CodeSearch.Text.Ranges
import CodeSearch.Text.Blank
import CodeSearch.Text.DigitTable
import CodeSearch.Decimal.Binary

/-!
Reading numbers from text.

White space around a numeral does not count, digits may come from any script, and a single
underscore may stand between two digits. A whole number is a sign and digits; a floating-point
number may also have a point, an exponent, or be one of the words for the infinities and for what is
not a number.
-/
set_option autoImplicit false

namespace CodeSearch.Decimal

open CodeSearch.Text

/-- The value of a decimal digit of any script. -/
def digit? (c : Char) : Option Nat :=
  (rangeOf? digitRanges c.toNat).map fun range => (c.toNat - range.1) % 10

/-- One symbol of a numeral. -/
inductive Symbol where
  | digit (value : Nat)
  | underscore
  | other (c : Char)
deriving DecidableEq, Repr

/-- The symbol that a character stands for. -/
def symbol (c : Char) : Symbol :=
  match digit? c with
  | some d => .digit d
  | none => if c = '_' then .underscore else .other c

/-- Whether every underscore stands between two digits; `last` says whether a digit came before. -/
def underscoresFit (last : Bool) : List Symbol → Bool
  | [] => true
  | .underscore :: .digit _ :: rest => last && underscoresFit true rest
  | .underscore :: _ => false
  | .digit _ :: rest => underscoresFit true rest
  | .other _ :: rest => underscoresFit false rest

/-- The white space that may stand around a numeral. The information separators are not among it. -/
def isPadding (c : Char) : Bool :=
  isBlank c && !(0x1C ≤ c.toNat && c.toNat ≤ 0x1F)

/-- The symbols of a numeral without the white space around it and without its underscores, if these
stand where they may. -/
def symbols? (s : String) : Option (List Symbol) :=
  let found := (trimOf isPadding s.toList).map symbol
  if underscoresFit false found then some (found.filter (· ≠ .underscore)) else none

/-- The leading digits, and the rest. -/
def takeDigits : List Symbol → List Nat × List Symbol
  | .digit d :: rest => let (ds, after) := takeDigits rest; (d :: ds, after)
  | rest => ([], rest)

/-- The number that digits spell. -/
def ofDigits (ds : List Nat) : Nat :=
  ds.foldl (fun n d => 10 * n + d) 0

/-- A leading sign, and the rest. -/
def takeSign : List Symbol → Bool × List Symbol
  | .other '-' :: rest => (true, rest)
  | .other '+' :: rest => (false, rest)
  | rest => (false, rest)

/-- The whole number that a text spells. -/
def integer? (s : String) : Option Int := do
  let found ← symbols? s
  let (negative, body) := takeSign found
  match takeDigits body with
  | (d :: ds, []) => some (if negative then -ofDigits (d :: ds) else ofDigits (d :: ds))
  | _ => none

/-- The number `digits · 10 ^ exponent`. Far outside the range of floating-point numbers the
answer is given without computing the power. -/
def ofDecimal (negative : Bool) (digits : List Nat) (exponent : Int) : Float :=
  let m := ofDigits digits
  let size := exponent + digits.length
  let x : Float :=
    if m = 0 then 0
    else if size < -400 then 0
    else if 400 < exponent then infinity false
    else if 0 ≤ exponent then Float.ofScientific m false exponent.toNat
    else Float.ofScientific m true (-exponent).toNat
  if negative then -x else x

/-- The exponent at the end of a numeral: none at all, or a mark, a sign and digits. -/
def exponent? : List Symbol → Option Int
  | [] => some 0
  | .other c :: rest =>
    if c = 'e' ∨ c = 'E' then
      let (negative, body) := takeSign rest
      match takeDigits body with
      | (d :: ds, []) => some (if negative then -ofDigits (d :: ds) else ofDigits (d :: ds))
      | _ => none
    else none
  | _ => none

/-- The letters of a numeral, in lower case, if it has nothing else. -/
def letters? (found : List Symbol) : Option String :=
  (found.mapM fun (s : Symbol) =>
    match s with
    | .other c => some c.toLower
    | _ => none).map String.ofList

/-- The floating-point number that a text spells. -/
def float? (s : String) : Option Float := do
  let found ← symbols? s
  let (negative, body) := takeSign found
  match letters? body with
  | some "nan" => return Float.ofBits 0x7FF8000000000000
  | some "inf" => return infinity negative
  | some "infinity" => return infinity negative
  | _ =>
    let (whole, rest) := takeDigits body
    let (places, tail) := match rest with
      | .other '.' :: after => takeDigits after
      | _ => ([], rest)
    if whole.isEmpty && places.isEmpty then none
    else
      let exponent ← exponent? tail
      return ofDecimal negative (whole ++ places) (exponent - places.length)

/-- The floating-point number nearest to a whole number, if there is a finite one. -/
def ofInt? (i : Int) : Option Float :=
  let x := Float.ofInt i
  if x.isInf then none else some x

end CodeSearch.Decimal
