import CodeSearch.Decimal.Numeral
import CodeSearch.Value.Basic

/-!
Reading TOML text: comments, section headers, and entries whose values are strings, numbers,
booleans or arrays of values of one kind.

A text that breaks a rule is refused as a whole: a header that does not end, an entry without a
key, an equals sign or a value, a bare word as a value, anything but a comment after a value, a
key or a section that comes twice.
-/
set_option autoImplicit false

namespace CodeSearch.Toml

/-- The text without spaces and tabs in front. -/
def skipSpace (cs : List Char) : List Char :=
  cs.dropWhile fun c => c == ' ' || c == '\t'

/-- The text without white space, line ends and comments in front. -/
def skipBreaks : Nat → List Char → List Char
  | 0, cs => cs
  | fuel + 1, cs =>
    match cs.dropWhile (fun c => c == ' ' || c == '\t' || c == '\n') with
    | '#' :: rest => skipBreaks fuel (rest.dropWhile (· ≠ '\n'))
    | rest => rest

/-- The text after the end of a line on which nothing but a comment may follow. -/
def endLine (cs : List Char) : Option (List Char) :=
  match skipSpace cs with
  | [] => some []
  | '\n' :: rest => some rest
  | '#' :: rest => some ((rest.dropWhile (· ≠ '\n')).drop 1)
  | _ => none

/-! ## Strings and keys -/

/-- The character with the code point that digits to the base sixteen spell. -/
def charOfHex? (digits : List Char) : Option Char :=
  let value? (c : Char) : Option Nat :=
    let n := c.toNat
    if 0x30 ≤ n ∧ n ≤ 0x39 then some (n - 0x30)
    else if 0x41 ≤ n ∧ n ≤ 0x46 then some (n - 0x37)
    else if 0x61 ≤ n ∧ n ≤ 0x66 then some (n - 0x57)
    else none
  match digits.mapM value? with
  | none => none
  | some values =>
    let n := values.foldl (fun n d => 16 * n + d) 0
    if n.isValidChar then some (Char.ofNat n) else none

/-- A basic string after its opening quote. -/
def readBasic (read : List Char) : List Char → Option (String × List Char)
  | [] => none
  | '"' :: rest => some (String.ofList read.reverse, rest)
  | '\\' :: 'u' :: a :: b :: c :: d :: rest =>
    match charOfHex? [a, b, c, d] with
    | some x => readBasic (x :: read) rest
    | none => none
  | '\\' :: 'U' :: a :: b :: c :: d :: e :: f :: g :: h :: rest =>
    match charOfHex? [a, b, c, d, e, f, g, h] with
    | some x => readBasic (x :: read) rest
    | none => none
  | '\\' :: c :: rest =>
    match c with
    | '"' => readBasic ('"' :: read) rest
    | '\\' => readBasic ('\\' :: read) rest
    | 'n' => readBasic ('\n' :: read) rest
    | 't' => readBasic ('\t' :: read) rest
    | 'r' => readBasic ('\r' :: read) rest
    | 'b' => readBasic (Char.ofNat 8 :: read) rest
    | 'f' => readBasic (Char.ofNat 12 :: read) rest
    | _ => none
  | c :: rest => if c = '\n' ∨ c = '\\' then none else readBasic (c :: read) rest

/-- A literal string after its opening quote: no escapes in it. -/
def readLiteral (cs : List Char) : Option (String × List Char) :=
  let inner := cs.takeWhile fun c => c ≠ '\n' && c ≠ Text.singleQuote
  match cs.drop inner.length with
  | c :: rest => if c = Text.singleQuote then some (String.ofList inner, rest) else none
  | [] => none

/-- Whether a character may stand in a key without quotes. -/
def isKeyChar (c : Char) : Bool :=
  c.isAlphanum || c == '_' || c == '-'

/-- A key: bare or in quotes. -/
def readKey (cs : List Char) : Option (String × List Char) :=
  match cs with
  | '"' :: rest => readBasic [] rest
  | _ =>
    if cs.head? = some Text.singleQuote then readLiteral (cs.drop 1)
    else
      match cs.takeWhile isKeyChar with
      | [] => none
      | key => some (String.ofList key, cs.drop key.length)

/-! ## Values -/

/-- Whether a digit belongs to a base. -/
def digitIn? (base : Nat) (c : Char) : Option Nat :=
  let n := c.toLower.toNat
  let d := if 0x61 ≤ n then n - 0x57 else n - 0x30
  if (c.isDigit || (0x61 ≤ n && n ≤ 0x66)) && d < base then some d else none

/-- A whole number without its sign. -/
def wholeNumber? (cs : List Char) : Option Nat :=
  let inBase (base : Nat) (digits : List Char) : Option Nat :=
    if digits.isEmpty then none
    else (digits.mapM (digitIn? base)).map fun ds => ds.foldl (fun n d => base * n + d) 0
  match cs with
  | '0' :: 'x' :: digits => inBase 16 digits
  | '0' :: 'o' :: digits => inBase 8 digits
  | '0' :: 'b' :: digits => inBase 2 digits
  | '0' :: c :: digits => if (c :: digits).all (· == '0') then some 0 else none
  | digits => inBase 10 digits

/-- A number: whole, unless it has a point or an exponent or is a word for what has no digits. -/
def number? (cs : List Char) : Option Value :=
  let (negative, signless) := match cs with
    | '-' :: rest => (true, rest)
    | '+' :: rest => (false, rest)
    | _ => (false, cs)
  let body := signless.filter (· ≠ '_')
  let pointed := body.contains '.'
  let powered := !body.contains 'x' && (body.contains 'e' || body.contains 'E')
  let word := String.ofList (body.map Char.toLower)
  if pointed || powered then
    let placesMissing := pointed && ((body.dropWhile (· ≠ '.')).drop 1).isEmpty
    if placesMissing || !(body.headD ' ').isDigit then none
    else (Decimal.float? (String.ofList body)).map fun x => .float (if negative then 0 - x else x)
  else if word = "inf" ∨ word = "nan" then
    (Decimal.float? word).map fun x => .float (if negative then 0 - x else x)
  else (wholeNumber? body).map fun n => .int (if negative then -n else n)

/-- A value that is one word: a boolean or a number. -/
def word? (cs : List Char) : Option Value :=
  if cs = "true".toList then some (.bool true)
  else if cs = "false".toList then some (.bool false)
  else number? cs

/-- Whether all items of an array are of one kind. -/
def sameKind : List Value → Bool
  | [] => true
  | item :: rest => rest.all fun other => other.kind == item.kind

/-- Whether a character ends a word. -/
def endsWord (c : Char) : Bool :=
  c == ' ' || c == '\t' || c == '\n' || c == ',' || c == ']' || c == '#'

mutual

/-- A value at the front of the text. -/
def readValue : Nat → List Char → Option (Value × List Char)
  | 0, _ => none
  | fuel + 1, cs =>
    match cs with
    | '"' :: rest => (readBasic [] rest).map fun found => (.text found.1, found.2)
    | '[' :: rest => do
      let (items, after) ← readItems fuel (skipBreaks rest.length rest)
      if sameKind items then some (.list items, after) else none
    | _ =>
      if cs.head? = some Text.singleQuote then
        (readLiteral (cs.drop 1)).map fun found => (.text found.1, found.2)
      else
        let word := cs.takeWhile fun c => !endsWord c
        if word.isEmpty then none
        else (word? word).map fun value => (value, cs.drop word.length)

/-- The items of an array up to its closing bracket; a comma may follow the last one. -/
def readItems : Nat → List Char → Option (List Value × List Char)
  | 0, _ => none
  | fuel + 1, cs =>
    match cs with
    | ']' :: rest => some ([], rest)
    | _ => do
      let (item, rest) ← readValue fuel cs
      match skipBreaks rest.length rest with
      | ',' :: more => do
        let (items, after) ← readItems fuel (skipBreaks more.length more)
        some (item :: items, after)
      | ']' :: after => some ([item], after)
      | _ => none

end

/-! ## Documents -/

/-- The entries with one more under a path of sections, all of which are there. -/
def addEntry (key : String) (value : Value) :
    List String → List (String × Value) → Option (List (String × Value))
  | [], entries => if (Value.find? key entries).isSome then none else some (entries ++ [(key, value)])
  | name :: path, entries =>
    match Value.find? name entries with
    | some (.table inner) =>
      (addEntry key value path inner).map fun changed => Value.setEntry name (.table changed) entries
    | _ => none

/-- The entries with a new section at the end of a path; the sections on the way are made if they
are missing. -/
def addSection : List String → List (String × Value) → Option (List (String × Value))
  | [], _ => none
  | [name], entries =>
    if (Value.find? name entries).isSome then none else some (entries ++ [(name, .table [])])
  | name :: path, entries =>
    match Value.find? name entries with
    | some (.table inner) =>
      (addSection path inner).map fun changed => Value.setEntry name (.table changed) entries
    | some _ => none
    | none => (addSection path []).map fun made => entries ++ [(name, .table made)]

/-- The path in a header after its opening bracket. -/
def readPath : Nat → List Char → Option (List String × List Char)
  | 0, _ => none
  | fuel + 1, cs => do
    let (name, rest) ← readKey (skipSpace cs)
    match skipSpace rest with
    | ']' :: after => some ([name], after)
    | '.' :: more => do
      let (path, after) ← readPath fuel more
      some (name :: path, after)
    | _ => none

/-- The document read so far: the section under way and all entries. -/
structure Document where
  path : List String
  entries : List (String × Value)

/-- A header or an entry at the front of the text. -/
def readLine (d : Document) (cs : List Char) : Option (Document × List Char) := do
  match cs with
  | '[' :: rest => do
    let (path, after) ← readPath cs.length rest
    let last ← endLine after
    let entries ← addSection path d.entries
    some (⟨path, entries⟩, last)
  | _ => do
    let (key, rest) ← readKey cs
    match skipSpace rest with
    | '=' :: body => do
      let (value, after) ← readValue cs.length (skipSpace body)
      let last ← endLine after
      let entries ← addEntry key value d.path d.entries
      some (⟨d.path, entries⟩, last)
    | _ => none

/-- The rest of a document. -/
def readDocument : Nat → Document → List Char → Option (List (String × Value))
  | 0, _, _ => none
  | fuel + 1, d, cs =>
    match skipBreaks cs.length cs with
    | [] => some d.entries
    | line => do
      let (next, rest) ← readLine d line
      readDocument fuel next rest

/-- The table that a text spells. -/
def read (s : String) : Option (List (String × Value)) :=
  let cs := s.toList
  readDocument (cs.length + 1) ⟨[], []⟩ cs

end CodeSearch.Toml
