import CodeSearch.Toml.Reader
import CodeSearch.Toml.Writer
import CodeSearch.Value.Fault

/-!
How the configuration file is written and read.

All that the configuration asks of a format is the text of a table and the table of a text. A text
that breaks the rules of the format is told apart from one on which reading breaks in another way.
-/
set_option autoImplicit false

namespace CodeSearch.Config

/-- Why a text is not read as a table. -/
inductive Unread where
  | malformed
  /-- Reading it broke in some other way. -/
  | broken (f : Fault)

/-- A way to write tables as text and to read them again. -/
structure Format where
  read : String → Except Unread (List (String × Value))
  write : List (String × Value) → String

/-- Tables as TOML text. -/
def Format.toml : Format where
  read text :=
    match Toml.read text with
    | some table => .ok table
    | none => .error .malformed
  write := Toml.write

end CodeSearch.Config
