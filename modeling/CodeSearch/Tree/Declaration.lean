import CodeSearch.Text.Blank
import CodeSearch.Text.Quoted
import CodeSearch.Text.Source
import CodeSearch.Tree.Grammar
import CodeSearch.Tree.Occurrence

/-!
What a node declares.

`declaration?` tells apart the five kinds of declarations by the tables of the grammar and finds the
names. Only nodes with names of their own declare something: a keyword may have the same type as the
declaration that it begins.
-/
set_option autoImplicit false

namespace CodeSearch.Tree

open CodeSearch.Text (Source)

/-- What a node declares. -/
inductive Declaration where
  | function (name : String)
  | classType (name : String)
  | interface (name : String)
  /-- An import, with the modules it names. -/
  | imports (modules : List String)
  /-- Variables, one name or more. -/
  | bindings (names : List String)
deriving DecidableEq, Repr

/-- The name of a function that has none. -/
def anonymous : String := "anonymous"

/-- The text of a node. -/
def textOf (source : Source) (n : Node) : String :=
  source.slice n.start n.stop

/-- The line on which a node begins, counted from one. -/
def lineOf (source : Source) (n : Node) : Nat :=
  source.lineAt n.start

/-- The name of a function expression: its own, or that of the target it is assigned to. -/
def expressionName (g : Grammar) (source : Source) (o : Occurrence) : String :=
  match o.node.child? "name" with
  | some own => textOf source own
  | none =>
    match o.parent? with
    | none => anonymous
    | some parent =>
      match g.naming.lookup parent.type with
      | none => anonymous
      | some field =>
        match parent.child? field with
        | some target => if g.identifiers.contains target.type then textOf source target else anonymous
        | none => anonymous

/-- Whether a character is a quote that can stand around the name of a module. -/
def isModuleQuote (c : Char) : Bool :=
  c == '"' || c == Text.singleQuote || c == Char.ofNat 0x60

/-- The modules that an import names. -/
def importedModules (source : Source) (n : Node) : List String :=
  match n.child? "source" with
  | some origin => [Text.trimChars isModuleQuote (textOf source origin)]
  | none =>
    match n.child? "module_name" with
    | some origin => [textOf source origin]
    | none =>
      (n.childrenAt "name").map fun name =>
        if name.type == "aliased_import" then textOf source ((name.child? "name").getD name)
        else textOf source name

/-- Whether a statement stands directly in one of the given scopes, or in the block of one. -/
def inScope (scopes : List String) (o : Occurrence) : Bool :=
  match o.ancestors with
  | statement :: outer =>
    statement.type == "expression_statement" &&
      match outer with
      | [] => false
      | scope :: beyond =>
        if scope.type == "block" then
          match beyond with
          | [] => false
          | owner :: _ => scopes.contains owner.type
        else scopes.contains scope.type
  | [] => false

/-- The names that a variable declaration binds: of its declarators, then of its left side. -/
def declaredNames (g : Grammar) (source : Source) (n : Node) : List String :=
  let ofDeclarators :=
    (n.namedChildren.filter fun child => child.type == "variable_declarator").filterMap fun child =>
      match child.child? "name" with
      | some target => if g.identifiers.contains target.type then some (textOf source target) else none
      | none => none
  let ofLeft :=
    match n.child? "left" with
    | none => []
    | some left =>
      if g.identifiers.contains left.type then [textOf source left]
      else if g.binding.contains left.type then
        (left.namedChildren.filter fun child => g.identifiers.contains child.type).map (textOf source)
      else []
  ofDeclarators ++ ofLeft

/-- What a node declares, if anything. -/
def declaration? (g : Grammar) (source : Source) (o : Occurrence) : Option Declaration :=
  let n := o.node
  if !n.named then none
  else if g.functions.contains n.type then
    (n.child? "name").map fun name => .function (textOf source name)
  else if g.anonymousFunctions.contains n.type then
    some (.function (expressionName g source o))
  else if g.interfaces.contains n.type then
    (n.child? "name").map fun name => .interface (textOf source name)
  else if g.classes.contains n.type then
    (n.child? "name").map fun name => .classType (textOf source name)
  else if g.imports.contains n.type then some (.imports (importedModules source n))
  else if g.bindings.contains n.type then
    if !g.variableScopes.isEmpty && !inScope g.variableScopes o then none
    else
      match declaredNames g source n with
      | [] => none
      | names => some (.bindings names)
  else none

/-- The name that an import goes by. -/
def importName (modules : List String) : String :=
  if modules.isEmpty then "unknown" else ", ".intercalate modules

end CodeSearch.Tree
