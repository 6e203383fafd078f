import CodeSearch.Decimal.Numeral
import CodeSearch.Value.Basic

/-!
Reading values from JSON text.

The reader takes a value off the front of a text and hands back the rest. Its fuel is the length of
the text, which every step shortens. Numbers without a fraction and an exponent are whole numbers of
any size; the words for the infinities and for what is not a number are read as well. A
surrogate without its partner becomes U+FFFD.
-/
set_option autoImplicit false

namespace CodeSearch.Json

/-- White space between the tokens. -/
def isSpace (c : Char) : Bool :=
  c == ' ' || c == '\t' || c == '\n' || c == '\r'

/-- The text without the white space in front. -/
def skip (cs : List Char) : List Char :=
  cs.dropWhile isSpace

/-! ## Strings -/

/-- The value of a digit to the base sixteen. -/
def hexDigit? (c : Char) : Option Nat :=
  let n := c.toNat
  if 0x30 ≤ n ∧ n ≤ 0x39 then some (n - 0x30)
  else if 0x41 ≤ n ∧ n ≤ 0x46 then some (n - 0x37)
  else if 0x61 ≤ n ∧ n ≤ 0x66 then some (n - 0x57)
  else none

/-- The character that an escape of one letter stands for. -/
def simpleEscape? (c : Char) : Option Nat :=
  match c with
  | '"' => some 0x22
  | '\\' => some 0x5C
  | '/' => some 0x2F
  | 'b' => some 8
  | 'f' => some 12
  | 'n' => some 10
  | 'r' => some 13
  | 't' => some 9
  | _ => none

/-- The units of a string up to its closing quote, and the text after it. Escapes give units of
sixteen bits, all other characters their code point. -/
def readUnits (read : List Nat) : List Char → Option (List Nat × List Char)
  | [] => none
  | '"' :: rest => some (read.reverse, rest)
  | '\\' :: 'u' :: a :: b :: c :: d :: rest =>
    match hexDigit? a, hexDigit? b, hexDigit? c, hexDigit? d with
    | some a, some b, some c, some d => readUnits ((((a * 16 + b) * 16 + c) * 16 + d) :: read) rest
    | _, _, _, _ => none
  | '\\' :: c :: rest =>
    match simpleEscape? c with
    | some n => readUnits (n :: read) rest
    | none => none
  | c :: rest => if c.toNat < 0x20 ∨ c = '\\' then none else readUnits (c.toNat :: read) rest

/-- The characters of a list of units: two surrogates that belong together make one. -/
def joinUnits : List Nat → List Char
  | [] => []
  | [n] => [Char.ofNat (if 0xD800 ≤ n ∧ n < 0xE000 then 0xFFFD else n)]
  | high :: low :: rest =>
    if 0xD800 ≤ high ∧ high < 0xDC00 ∧ 0xDC00 ≤ low ∧ low < 0xE000 then
      Char.ofNat (0x10000 + (high - 0xD800) * 0x400 + (low - 0xDC00)) :: joinUnits rest
    else Char.ofNat (if 0xD800 ≤ high ∧ high < 0xE000 then 0xFFFD else high) :: joinUnits (low :: rest)

/-- A string after its opening quote. -/
def readString (cs : List Char) : Option (String × List Char) :=
  (readUnits [] cs).map fun found => (String.ofList (joinUnits found.1), found.2)

/-! ## Numbers -/

/-- The leading ASCII digits, and the rest. -/
def readDigits (cs : List Char) : List Nat × List Char :=
  ((cs.takeWhile Char.isDigit).map fun c => c.toNat - 0x30, cs.dropWhile Char.isDigit)

/-- The digits before the point: no zero in front of another digit. -/
def readWhole (cs : List Char) : Option (List Nat × List Char) :=
  match cs with
  | '0' :: rest => some ([0], rest)
  | _ =>
    match readDigits cs with
    | ([], _) => none
    | found => some found

/-- The digits after a point, if one stands there with a digit behind it. -/
def readPlaces (cs : List Char) : Option (List Nat × List Char) :=
  match cs with
  | '.' :: rest =>
    match readDigits rest with
    | ([], _) => none
    | found => some found
  | _ => none

/-- The sign in front of an exponent. -/
def readSign : List Char → Bool × List Char
  | '-' :: rest => (true, rest)
  | '+' :: rest => (false, rest)
  | rest => (false, rest)

/-- An exponent, if a whole one stands there. -/
def readExponent (cs : List Char) : Option (Int × List Char) :=
  match cs with
  | c :: rest =>
    if c = 'e' ∨ c = 'E' then
      let (negative, body) := readSign rest
      match readDigits body with
      | ([], _) => none
      | (ds, after) =>
        let n : Int := Decimal.ofDigits ds
        some (if negative then -n else n, after)
    else none
  | [] => none

/-- A number after its sign. -/
def readNumber (negative : Bool) (cs : List Char) : Option (Value × List Char) := do
  let (whole, rest) ← readWhole cs
  match readPlaces rest, readExponent rest with
  | none, none =>
    let n : Int := Decimal.ofDigits whole
    return (.int (if negative then -n else n), rest)
  | none, some (e, after) => return (.float (Decimal.ofDecimal negative whole e), after)
  | some (places, after), _ =>
    let (e, last) := (readExponent after).getD (0, after)
    return (.float (Decimal.ofDecimal negative (whole ++ places) (e - places.length)), last)

/-! ## Values -/

/-- The text after a word, if it begins with the word. -/
def word? (word : String) (cs : List Char) : Option (List Char) :=
  if word.toList.isPrefixOf cs then some (cs.drop word.length) else none

/-- A value that is a word. -/
def readWord (cs : List Char) : Option (Value × List Char) :=
  (word? "null" cs).map (.null, ·) <|>
  (word? "true" cs).map (.bool true, ·) <|>
  (word? "false" cs).map (.bool false, ·) <|>
  (word? "NaN" cs).map (.float (Float.ofBits 0x7FF8000000000000), ·) <|>
  (word? "Infinity" cs).map (.float (Decimal.infinity false), ·) <|>
  (word? "-Infinity" cs).map (.float (Decimal.infinity true), ·)

mutual

/-- A value at the front of a text without white space there. -/
def readValue : Nat → List Char → Option (Value × List Char)
  | 0, _ => none
  | fuel + 1, cs =>
    match cs with
    | '"' :: rest => (readString rest).map fun found => (.text found.1, found.2)
    | '[' :: rest =>
      match skip rest with
      | ']' :: after => some (.list [], after)
      | body => (readItems fuel body).map fun found => (.list found.1, found.2)
    | '\x7b' :: rest =>
      match skip rest with
      | '\x7d' :: after => some (.table [], after)
      | body => (readEntries fuel body).map fun found => (.table (Value.tableOf found.1), found.2)
    | _ =>
      match readWord cs with
      | some found => some found
      | none =>
        match cs with
        | '-' :: rest => readNumber true rest
        | _ => readNumber false cs

/-- One or more items up to the closing bracket. -/
def readItems : Nat → List Char → Option (List Value × List Char)
  | 0, _ => none
  | fuel + 1, cs =>
    match readValue fuel cs with
    | none => none
    | some (item, rest) =>
      match skip rest with
      | ']' :: after => some ([item], after)
      | ',' :: after => (readItems fuel (skip after)).map fun found => (item :: found.1, found.2)
      | _ => none

/-- One or more entries up to the closing brace. -/
def readEntries : Nat → List Char → Option (List (String × Value) × List Char)
  | 0, _ => none
  | fuel + 1, cs =>
    match cs with
    | '"' :: rest =>
      match readString rest with
      | none => none
      | some (key, more) =>
        match skip more with
        | ':' :: body =>
          match readValue fuel (skip body) with
          | none => none
          | some (value, last) =>
            match skip last with
            | '\x7d' :: after => some ([(key, value)], after)
            | ',' :: after =>
              (readEntries fuel (skip after)).map fun found => ((key, value) :: found.1, found.2)
            | _ => none
        | _ => none
    | _ => none

end

/-- The value that a text spells, with white space around it. -/
def parse (s : String) : Option Value :=
  let cs := skip s.toList
  match readValue (cs.length + 1) cs with
  | some (value, rest) => if (skip rest).isEmpty then some value else none
  | none => none

end CodeSearch.Json
