import CodeSearch.Value.Basic

/-!
Configuration tables as TOML text.

The plain entries of the top level come first, then the sections one level of nesting after
the other, each in the order of its keys and with a blank line in front. An entry without a value is
left out; a section without entries is still named.
-/
set_option autoImplicit false

namespace CodeSearch.Toml

/-- A floating-point number is written like elsewhere, with no zero in front of its exponent. -/
def numberStyle : Decimal.Style := ⟨-3, 16, 1⟩

/-- One character inside a basic string. -/
def basicChar (c : Char) : List Char :=
  match Text.quotedChar '"' c with
  | '\\' :: 'x' :: digits => '\\' :: 'u' :: '0' :: '0' :: digits
  | written => written

/-- A text as a basic string. -/
def basicString (s : String) : String :=
  String.ofList ('"' :: s.toList.flatMap basicChar ++ ['"'])

/-- Whether a character may stand in a key without quotes. -/
def isBareChar (c : Char) : Bool :=
  c.isAlphanum || c == '_' || c == '-'

/-- A key, in quotes if it needs them. -/
def writeKey (key : String) : String :=
  if !key.isEmpty && key.toList.all isBareChar then key else basicString key

mutual

/-- A value on the right of its key. -/
def writeValue : Value → String
  | .null => basicString "None"
  | .bool b => if b then "true" else "false"
  | .int i => toString i
  | .float x => Decimal.write numberStyle x
  | .text s => basicString s
  | .list items => "[" ++ writeItems items ++ "]"
  | .table entries => "[" ++ writeItemKeys entries ++ "]"
  | .foreign _ shown _ => shown

/-- The items of an array, each with a comma behind it. -/
def writeItems : List Value → String
  | [] => ""
  | item :: rest => " " ++ writeValue item ++ "," ++ writeItems rest

/-- The keys of a table that stands where only an array can. -/
def writeItemKeys : List (String × Value) → String
  | [] => ""
  | (key, _) :: rest => " " ++ basicString key ++ "," ++ writeItemKeys rest

end

/-- The lines of the plain entries of a table. -/
def writeLines : List (String × Value) → String
  | [] => ""
  | (_, .table _) :: rest => writeLines rest
  | (_, .null) :: rest => writeLines rest
  | (key, value) :: rest => writeKey key ++ " = " ++ writeValue value ++ "\n" ++ writeLines rest

/-- The tables among the entries of a table, with their keys. -/
def sectionsOf : List (String × Value) → List (String × List (String × Value))
  | [] => []
  | (key, .table entries) :: rest => (writeKey key, entries) :: sectionsOf rest
  | _ :: rest => sectionsOf rest

/-- What stands in front of a header: a blank line, unless there is one or the text is empty. -/
def gap (written : String) : String :=
  if written.isEmpty || written.endsWith "\n\n" then "" else "\n"

/-- A section behind what is written already. -/
def writeSection (written : String) (name : String) (entries : List (String × Value)) : String :=
  let body := writeLines entries
  if body.isEmpty && !(sectionsOf entries).isEmpty then written
  else written ++ gap written ++ "[" ++ name ++ "]\n" ++ body

/-- The sections of one level of nesting and of all below it. -/
def writeLevels : Nat → String → List (String × List (String × Value)) → String
  | 0, written, _ => written
  | _ + 1, written, [] => written
  | depth + 1, written, level =>
    let now := level.foldl (fun text part => writeSection text part.1 part.2) written
    writeLevels depth now <| level.flatMap fun part =>
      (sectionsOf part.2).map fun inner => (part.1 ++ "." ++ inner.1, inner.2)

mutual

/-- How deep tables are nested in a value. -/
def depth : Value → Nat
  | .table entries => 1 + depthOfEntries entries
  | _ => 0

/-- How deep tables are nested in the values of a table. -/
def depthOfEntries : List (String × Value) → Nat
  | [] => 0
  | (_, value) :: rest => max (depth value) (depthOfEntries rest)

end

/-- The text of a table. -/
def write (entries : List (String × Value)) : String :=
  writeLevels (depthOfEntries entries) (writeLines entries) (sectionsOf entries)

end CodeSearch.Toml
