import CodeSearch.Decimal.Style
import CodeSearch.Text.Quoted

/-!
Data whose shape is not known beforehand: what a configuration file holds, what a service answers,
what a column of a table contains.

A table keeps its entries in the order in which their keys first came, and a key stands in it
once. `display` is the text of a value where it is part of a text, `quoted` its text inside another
value; they differ only on texts and on values of which only the texts are known.
-/
set_option autoImplicit false

namespace CodeSearch

/-- A value of one of seven kinds, or of another one of which only the texts are known, such as a
date. -/
inductive Value where
  | null
  | bool (b : Bool)
  | int (i : Int)
  | float (x : Float)
  | text (s : String)
  | list (items : List Value)
  | table (entries : List (String × Value))
  | foreign (kind shown spelled : String)

namespace Value

instance : Inhabited Value := ⟨.null⟩

/-- The word for the kind of a value in messages. -/
def kind : Value → String
  | .null => "NoneType"
  | .bool _ => "bool"
  | .int _ => "int"
  | .float _ => "float"
  | .text _ => "str"
  | .list _ => "list"
  | .table _ => "dict"
  | .foreign kind _ _ => kind

/-- Whether a value counts as something: not null, false, zero or empty. -/
def holds : Value → Bool
  | .null => false
  | .bool b => b
  | .int i => i != 0
  | .float x => x != 0
  | .text s => !s.isEmpty
  | .list items => !items.isEmpty
  | .table entries => !entries.isEmpty
  | .foreign _ _ _ => true

mutual

/-- The text of a value inside another one. -/
def quoted : Value → String
  | .null => "None"
  | .bool b => if b then "True" else "False"
  | .int i => toString i
  | .float x => Decimal.write Decimal.standard x
  | .text s => Text.quoted s
  | .list items => "[" ++ ", ".intercalate (quotedItems items) ++ "]"
  | .table entries => "\x7b" ++ ", ".intercalate (quotedEntries entries) ++ "\x7d"
  | .foreign _ _ spelled => spelled

/-- The texts of the items of a list. -/
def quotedItems : List Value → List String
  | [] => []
  | item :: rest => quoted item :: quotedItems rest

/-- The texts of the entries of a table. -/
def quotedEntries : List (String × Value) → List String
  | [] => []
  | (key, value) :: rest => (Text.quoted key ++ ": " ++ quoted value) :: quotedEntries rest

end

/-- The text of a value where it is part of a text. -/
def display : Value → String
  | .text s => s
  | .foreign _ shown _ => shown
  | value => quoted value

/-- The value under a key. -/
def find? (key : String) (entries : List (String × Value)) : Option Value :=
  (entries.find? fun entry => entry.1 == key).map (·.2)

/-- The entries with a key set: in its place if it is there already, at the end otherwise. -/
def setEntry (key : String) (value : Value) : List (String × Value) → List (String × Value)
  | [] => [(key, value)]
  | entry :: rest =>
    if entry.1 == key then (key, value) :: rest else entry :: setEntry key value rest

/-- The table of a list of entries, the last of those with one key in the place of the first. -/
def tableOf (entries : List (String × Value)) : List (String × Value) :=
  entries.foldl (fun found entry => setEntry entry.1 entry.2 found) []

end Value

end CodeSearch
