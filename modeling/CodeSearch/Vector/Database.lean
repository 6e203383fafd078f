import CodeSearch.Cut
import CodeSearch.Text.Quoted
import CodeSearch.Vector.Similarity
import CodeSearch.Value.Basic

/-!
A database of tables of vectors, kept in memory.

A search may be put under a condition, which is a text; what it says is up to the database
(`Dialect`). Any of the operations may be made to fail, with the reason that it then gives, and the
next search may be made to answer with given rows. A search that is answered is kept in a record of
calls, and so are the tables that were dropped.
-/
set_option autoImplicit false

namespace CodeSearch.Vector

/-- The operations that can fail. -/
inductive Operation where
  | connect
  | list
  | create
  | drop
  | open
  | search
deriving DecidableEq, Repr

/-- A row: columns with their values. -/
abbrev Row := List (String × Value)

/-- A column of a row. -/
def column (row : Row) (name : String) : Value :=
  (Value.find? name row).getD .null

/-- The condition that rows are of a kind, as a database is told it. -/
def kindClause (kind : String) : String :=
  s!"kind = '{kind}'"

/-- How a database understands conditions: which rows each of them takes. Of most texts nothing is
known. The condition for a kind takes the rows with this text for a kind, as long as there is no
quote in it, which would be taken for its end. -/
structure Dialect where
  takes : String → Row → Bool
  takes_kind : ∀ (kind held : String) (row : Row), Text.singleQuote ∉ kind.toList →
    column row "kind" = .text held → takes (kindClause kind) row = decide (held = kind)

theorem kindClause_inj {kind other : String} : kindClause kind = kindClause other ↔ kind = other := by
  simp [kindClause, ← String.toList_inj, toString]

/-- A row is taken by the very condition for its own kind, and by no other one. -/
def Dialect.textual : Dialect where
  takes clause row := kindClause (column row "kind").display == clause
  takes_kind kind held row _ hheld := by
    rw [hheld, Value.display, Bool.eq_iff_iff, beq_iff_eq, decide_eq_true_iff, kindClause_inj]

/-- A search as it was asked for: in which table, how many rows, and under which condition. -/
structure Call where
  table : String
  limit : Int
  clause : Option String
deriving DecidableEq, Repr

/-- The tables, what is made to fail or to be answered, and the record. -/
structure Database where
  dialect : Dialect := .textual
  tables : List (String × List Row) := []
  failures : List (Operation × String) := []
  answer : Option (List Row) := none
  calls : List Call := []
  dropped : List String := []

namespace Database

/-- The reason why an operation fails, if it does. -/
def failure? (d : Database) (o : Operation) : Option String :=
  d.failures.lookup o

/-- An operation that is not made to fail. -/
def check (d : Database) (o : Operation) : Except String Unit :=
  match d.failure? o with
  | some reason => .error reason
  | none => .ok ()

/-- The rows of a table. -/
def rows? (d : Database) (name : String) : Option (List Row) :=
  d.tables.lookup name

/-- The names of the tables, in order. -/
def names (d : Database) : List String :=
  (d.tables.map (·.1)).mergeSort fun a b => decide (a ≤ b)

/-- The names of the tables, if they can be listed. -/
def tableNames (d : Database) : Except String (List String) := do
  d.check .list
  return d.names

/-- The tables without one of them. -/
def without (tables : List (String × List Row)) (name : String) : List (String × List Row) :=
  tables.filter fun table => table.1 ≠ name

/-- A table with rows, in the place of the one with its name. -/
def createTable (d : Database) (name : String) (rows : List Row) : Except String Database := do
  d.check .create
  return { d with tables := without d.tables name ++ [(name, rows)] }

/-- The database without a table. -/
def dropTable (d : Database) (name : String) : Except String Database := do
  d.check .drop
  return { d with tables := without d.tables name, dropped := d.dropped ++ [name] }

/-- The rows of a table that is there. -/
def openTable (d : Database) (name : String) : Except String (List Row) := do
  d.check .open
  match d.rows? name with
  | some rows => return rows
  | none => throw s!"Table '{name}' was not found"

/-- The numbers of a column that holds a vector. -/
def vectorOf (row : Row) : List Float :=
  match column row "vector" with
  | .list items => items.filterMap fun item =>
    match item with
    | .float x => some x
    | _ => none
  | _ => []

/-- Whether a search takes a row; one without a condition takes every row. -/
def takes (d : Database) (clause : Option String) (row : Row) : Bool :=
  match clause with
  | none => true
  | some clause => d.dialect.takes clause row

/-- How far a row is from a vector. -/
def distance (vector : List Float) (row : Row) : Float :=
  1.0 - cosine vector (vectorOf row)

/-- The rows that are taken with their distances from a vector, the nearest first. -/
def nearest (vector : List Float) (taken : Row → Bool) (rows : List Row) : List (Row × Float) :=
  (((rows.filter taken).map fun row => (row, distance vector row))).mergeSort
    fun a b => !(b.2 < a.2)

/-- The rows that a search finds, with the column that holds the distance. -/
def found (vector : List Float) (limit : Int) (taken : Row → Bool) (rows : List Row) : List Row :=
  (Cut.upTo limit (nearest vector taken rows)).map fun (row, far) => ("_distance", .float far) :: row

/-- A search in a table. -/
def search (d : Database) (name : String) (vector : List Float) (limit : Int)
    (clause : Option String) : Except String (List Row × Database) := do
  let rows ← d.openTable name
  d.check .search
  let asked := { d with calls := d.calls ++ [⟨name, limit, clause⟩] }
  match d.answer with
  | some given => return (given, { asked with answer := none })
  | none => return (found vector limit (d.takes clause) rows, asked)

end Database

end CodeSearch.Vector
