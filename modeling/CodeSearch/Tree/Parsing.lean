import CodeSearch.Tree.Fault
import CodeSearch.Tree.Language
import CodeSearch.Value.Fault

/-!
From the text of a file to its syntax tree.

The trees come from parsers outside of the library, one for each language. The package of a parser
may be missing or broken; then no file in its language can be read, which is reported once. A tree
that is marked as faulty is not used.
-/
set_option autoImplicit false

namespace CodeSearch.Tree

open CodeSearch.Text (Source)

/-- A parser that cannot be loaded: the kind of the failure and its wording. -/
structure LoadFailure where
  kind : String
  message : String
deriving DecidableEq, Repr

/-- The failures that mean that a package is missing or does not fit. Any other one is not
expected. -/
def LoadFailure.expectedKinds : List String :=
  ["ImportError", "ModuleNotFoundError", "AttributeError", "ValueError", "UnicodeError"]

/-- Whether a failure means that a package is missing or does not fit. -/
def LoadFailure.isExpected (f : LoadFailure) : Bool :=
  expectedKinds.contains f.kind

/-- The parsers at hand: the failure of each package that cannot be loaded, and the tree of each
text. -/
structure Parsers where
  failure? : String → Option LoadFailure
  tree : Language → List Char → Node

/-- A file that could not be used, with the reason. -/
structure Skipped where
  path : String
  reason : String
deriving DecidableEq, Repr

/-- A file that was read: its language, its text and the tree of its text. -/
structure Parsed where
  path : String
  language : Language
  source : Source
  root : Node

/-- The languages whose missing parsers have been reported. -/
abbrev Reported := List Language

/-- Why no file in a language can be read. -/
def unavailable (language : Language) (failure : LoadFailure) : String :=
  let package := language.package
  let command := String.ofList (package.toList.map fun c => if c = '_' then '-' else c)
  s!"grammar package '{package}' unavailable for {language.name}: {failure.message}. " ++
    s!"Install with: pip install {command}"

/-- Whether files in a language can be read: the reason if not. -/
def Parsers.obstacle? (parsers : Parsers) (language : Language) : Except Fault (Option String) :=
  match parsers.failure? language.package with
  | none => .ok none
  | some failure =>
    if failure.isExpected then .ok (some (unavailable language failure))
    else .error (.foreign failure.kind failure.message)

/-- The warning that a parser is missing, unless it has been given; and what has been reported
then. -/
def report (reported : Reported) (language : Language) (obstacle : Option String) :
    List String × Reported :=
  match obstacle with
  | some reason => if reported.contains language then ([], reported) else ([reason], language :: reported)
  | none => ([], reported)

/-- What one file comes to, without regard to warnings. -/
def Parsers.outcome (parsers : Parsers) (path : String) (text : List Char) :
    Except Fault (Except Skipped Parsed) :=
  match Language.ofPath? path with
  | none => .ok (.error ⟨path, "unsupported file extension"⟩)
  | some language =>
    match parsers.obstacle? language with
    | .error fault => .error fault
    | .ok (some reason) => .ok (.error ⟨path, reason⟩)
    | .ok none =>
      let source := Source.ofText text
      let root := parsers.tree language text
      if root.hasError then .ok (.error ⟨path, describeFault source root⟩)
      else .ok (.ok ⟨path, language, source, root⟩)

/-- The warnings that reading a file gives. -/
def Parsers.warnings (parsers : Parsers) (reported : Reported) (path : String) :
    List String × Reported :=
  match Language.ofPath? path with
  | none => ([], reported)
  | some language =>
    match parsers.obstacle? language with
    | .error _ => ([], reported)
    | .ok obstacle => report reported language obstacle

/-- Whether a file can be read, as far as its language goes. -/
def Parsers.supports (parsers : Parsers) (path : String) : Except Fault Bool :=
  match Language.ofPath? path with
  | none => .ok false
  | some language => (parsers.obstacle? language).map (·.isNone)

end CodeSearch.Tree
