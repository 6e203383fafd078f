import CodeSearch.Value.Basic

/-!
Values as JSON text in ASCII.

Items and entries are separated by a comma and a space, and a character that is not a visible one
of ASCII is written by its UTF-16 units. The two infinities and what is not a number have no form
in the standard and get the common words.
-/
set_option autoImplicit false

namespace CodeSearch.Json

/-- A code unit of sixteen bits as an escape. -/
def unitEscape (n : Nat) : List Char :=
  '\\' :: 'u' :: Text.hex 4 n

/-- One character inside a JSON string. -/
def escapedChar (c : Char) : List Char :=
  let n := c.toNat
  if c = '"' ∨ c = '\\' then ['\\', c]
  else if c = '\n' then ['\\', 'n']
  else if c = '\r' then ['\\', 'r']
  else if c = '\t' then ['\\', 't']
  else if n = 8 then ['\\', 'b']
  else if n = 12 then ['\\', 'f']
  else if 0x20 ≤ n ∧ n < 0x7F then [c]
  else if n < 0x10000 then unitEscape n
  else
    unitEscape (0xD800 + (n - 0x10000) / 0x400) ++ unitEscape (0xDC00 + (n - 0x10000) % 0x400)

/-- A string between its quotes. -/
def printString (s : String) : List Char :=
  '"' :: s.toList.flatMap escapedChar ++ ['"']

/-- A number. -/
def printFloat (x : Float) : String :=
  match Decimal.parts x with
  | .nan => "NaN"
  | .infinite negative => if negative then "-Infinity" else "Infinity"
  | _ => Decimal.write Decimal.standard x

mutual

/-- The text of a value. -/
def print : Value → List Char
  | .null => "null".toList
  | .bool b => (if b then "true" else "false").toList
  | .int i => (toString i).toList
  | .float x => (printFloat x).toList
  | .text s => printString s
  | .list items => '[' :: printItems items
  | .table entries => Char.ofNat 0x7B :: printEntries entries
  | .foreign _ shown _ => printString shown

/-- The items of a list up to its closing bracket. -/
def printItems : List Value → List Char
  | [] => [']']
  | [item] => print item ++ [']']
  | item :: rest => print item ++ ',' :: ' ' :: printItems rest

/-- The entries of a table up to its closing brace. -/
def printEntries : List (String × Value) → List Char
  | [] => [Char.ofNat 0x7D]
  | [(key, value)] => printString key ++ ':' :: ' ' :: print value ++ [Char.ofNat 0x7D]
  | (key, value) :: rest =>
    printString key ++ ':' :: ' ' :: print value ++ ',' :: ' ' :: printEntries rest

end

/-- The text of a value, as a string. -/
def render (value : Value) : String :=
  String.ofList (print value)

end CodeSearch.Json
