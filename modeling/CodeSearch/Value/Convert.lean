import CodeSearch.Decimal.Numeral
import CodeSearch.Value.Fault

/-!
Taking data of unknown shape apart and turning it into numbers.

Every operation here is defined for every kind of value and answers with a `Fault` where the kind
does not fit, so that whoever reads outside data has to say what happens then.
-/
set_option autoImplicit false

namespace CodeSearch.Value

/-- The whole number that a value stands for; a floating-point number loses its fraction. -/
def toInt : Value → Except Fault Int
  | .int i => .ok i
  | .bool b => .ok (if b then 1 else 0)
  | .float x =>
    match Decimal.parts x with
    | .nan => .error .integerOfNan
    | .infinite _ => .error .integerOfInfinity
    | .finite negative mantissa exponent =>
      let size : Int := (mantissa * Nat.pow 2 exponent.toNat / Nat.pow 2 (-exponent).toNat : Nat)
      .ok (if negative then -size else size)
  | .text s =>
    match Decimal.integer? s with
    | some i => .ok i
    | none => .error (.notInteger s)
  | value => .error (.noIntegerOf value.kind)

/-- The floating-point number that a value stands for. -/
def toFloat : Value → Except Fault Float
  | .float x => .ok x
  | .bool b => .ok (if b then 1 else 0)
  | .int i =>
    match Decimal.ofInt? i with
    | some x => .ok x
    | none => .error .integerTooLarge
  | .text s =>
    match Decimal.float? s with
    | some x => .ok x
    | none => .error (.notNumber s)
  | value => .error (.noNumberOf value.kind)

/-- The parts of a value one after the other: items, characters or keys. -/
def items : Value → Except Fault (List Value)
  | .list items => .ok items
  | .text s => .ok (s.toList.map fun c => .text (String.singleton c))
  | .table entries => .ok (entries.map fun entry => .text entry.1)
  | value => .error (.notIterable value.kind)

/-- The value under a key of a table, with something else if it is not there. -/
def getD (table : Value) (key : String) (default : Value) : Except Fault Value :=
  match table with
  | .table entries => .ok ((find? key entries).getD default)
  | value => .error (.noAttribute value.kind "get")

/-- The value under a key, which has to be there. -/
def atKey (value : Value) (key : String) : Except Fault Value :=
  match value with
  | .table entries =>
    match find? key entries with
    | some found => .ok found
    | none => .error (.missingKey (.text key))
  | .list _ => .error .listNeedsPosition
  | .text _ => .error .textNeedsPosition
  | value => .error (.notSubscriptable value.kind)

/-- The first part of a value, which has to be there. -/
def first (value : Value) : Except Fault Value :=
  match value with
  | .list (item :: _) => .ok item
  | .list [] => .error .pastListEnd
  | .text s =>
    match s.toList with
    | c :: _ => .ok (.text (String.singleton c))
    | [] => .error .pastTextEnd
  | .table _ => .error (.missingKey (.int 0))
  | value => .error (.notSubscriptable value.kind)

end CodeSearch.Value
