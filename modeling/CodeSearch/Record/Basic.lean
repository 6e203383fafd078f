import CodeSearch.Value.Convert

/-!
Records: the tables in which the data of this library is given to other programs and taken from
them.

Reading a record is lenient. A field that is missing, null or of another kind counts as its
default, so that every value is a record of something; what has to be checked is checked where it
is used.
-/
set_option autoImplicit false

namespace CodeSearch.Record

/-! ## Reading -/

/-- A field of a record. -/
def field? (v : Value) (key : String) : Option Value :=
  match v with
  | .table entries => Value.find? key entries
  | _ => none

/-- A field of a record that is not null. -/
def given? (v : Value) (key : String) : Option Value :=
  match field? v key with
  | some .null => none
  | found => found

/-- The text that a value is. -/
def text? : Value → Option String
  | .text s => some s
  | _ => none

/-- A value as text. -/
def text (v : Value) : String := (text? v).getD ""

/-- A value as a whole number. -/
def whole : Value → Int
  | .int i => i
  | .bool b => if b then 1 else 0
  | .float x =>
    match (Value.float x).toInt with
    | .ok i => i
    | .error _ => 0
  | _ => 0

/-- A value as a floating-point number. -/
def real : Value → Float
  | .float x => x
  | .int i => Float.ofInt i
  | .bool b => if b then 1 else 0
  | _ => 0

/-- The items of a list. -/
def items : Value → List Value
  | .list found => found
  | _ => []

/-- The entries of a table. -/
def entries : Value → List (String × Value)
  | .table found => found
  | _ => []

/-- The item of a list at a place; null beyond its end. -/
def item (v : Value) (place : Nat) : Value :=
  ((items v)[place]?).getD .null

/-- A value as a vector. -/
def vector (v : Value) : List Float := (items v).map real

/-- A field as text, if it is text. -/
def textAt? (v : Value) (key : String) : Option String :=
  (field? v key).bind text?

/-- A field as text. -/
def textAt (v : Value) (key : String) (default : String := "") : String :=
  (textAt? v key).getD default

/-- A field as a whole number. -/
def wholeAt (v : Value) (key : String) (default : Int := 0) : Int :=
  ((given? v key).map whole).getD default

/-- A field as a number that is not below zero. -/
def countAt (v : Value) (key : String) : Nat := (wholeAt v key).toNat

/-- A field as a floating-point number. -/
def realAt (v : Value) (key : String) (default : Float) : Float :=
  ((given? v key).map real).getD default

/-- A field as a truth value. -/
def flagAt (v : Value) (key : String) (default : Bool := false) : Bool :=
  match field? v key with
  | some (.bool b) => b
  | _ => default

/-- The items of a field. -/
def itemsAt (v : Value) (key : String) : List Value :=
  ((field? v key).map items).getD []

/-- The entries of a field. -/
def entriesAt (v : Value) (key : String) : List (String × Value) :=
  ((field? v key).map entries).getD []

/-- The items of a field as texts. -/
def textsAt (v : Value) (key : String) : List String :=
  (itemsAt v key).map text

/-- A field that is a vector. -/
def vectorAt? (v : Value) (key : String) : Option (List Float) :=
  (given? v key).map vector

/-! ## Writing -/

/-- A count. -/
def ofNat (n : Nat) : Value := .int n

/-- Texts. -/
def ofTexts (texts : List String) : Value := .list (texts.map .text)

/-- A vector. -/
def ofVector (v : List Float) : Value := .list (v.map .float)

/-- Something or null. -/
def ofOption {α : Type} (f : α → Value) : Option α → Value
  | some x => f x
  | none => .null

/-- Names with counts. -/
def ofCounts (counts : List (String × Nat)) : Value :=
  .table (counts.map fun count => (count.1, ofNat count.2))

end CodeSearch.Record
