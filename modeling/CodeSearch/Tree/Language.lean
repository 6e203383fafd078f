import CodeSearch.Path
import CodeSearch.Text.Lower
import CodeSearch.Tree.Grammar

/-!
The languages that can be read, and how a file tells which one it is in.
-/
set_option autoImplicit false

namespace CodeSearch.Tree

/-- A language with a grammar of its own. -/
inductive Language where
  | javascript
  | typescript
  | tsx
  | python
deriving DecidableEq, Repr

namespace Language

/-- All languages. -/
def all : List Language := [.javascript, .typescript, .tsx, .python]

/-- The name of a language. -/
def name : Language → String
  | .javascript => "javascript"
  | .typescript => "typescript"
  | .tsx => "tsx"
  | .python => "python"

/-- The language of a name. -/
def ofName? (name : String) : Option Language :=
  all.find? fun language => language.name == name

/-- The endings of file names, in lower case, with their languages. -/
def endings : List (String × Language) := [
  (".js", .javascript), (".jsx", .javascript), (".mjs", .javascript), (".cjs", .javascript),
  (".ts", .typescript), (".tsx", .tsx), (".py", .python)]

/-- The language that a file name's ending stands for, in capitals or not. -/
def ofEnding? (ending : String) : Option Language :=
  endings.lookup (Text.lower ending)

/-- The language of a file. -/
def ofPath? (path : String) : Option Language :=
  ofEnding? (Path.ending path)

/-- The tables of a language. The two kinds of TypeScript share theirs. -/
def grammar : Language → Grammar
  | .javascript => .javascript
  | .typescript => .typescript
  | .tsx => .typescript
  | .python => .python

/-- The package that brings the parser of a language. -/
def package : Language → String
  | .javascript => "tree_sitter_javascript"
  | .typescript => "tree_sitter_typescript"
  | .tsx => "tree_sitter_typescript"
  | .python => "tree_sitter_python"

end Language

end CodeSearch.Tree
