import CodeSearch.Text.NameSet
import CodeSearch.Tree.Declaration

/-!
Names that code depends on.

A node contributes at most one name: a call the name it calls, an identifier its own text where it
is read and not bound. Whether it is bound is decided by its parent, which holds for every node of
the text, so the names below a node do not depend on where the search began.
-/
set_option autoImplicit false

namespace CodeSearch.Tree

open CodeSearch.Text (Source NameSet)

/-- Whether a node is an identifier that reads a name. -/
def isReference (g : Grammar) (o : Occurrence) : Bool :=
  g.identifiers.contains o.node.type &&
    match o.parent? with
    | none => true
    | some parent =>
      !g.binding.contains parent.type && !(g.bindingFieldsOf parent.type).contains o.node.field

/-- The name that a call is made by: the identifier, or the member that is picked. -/
def callee? (g : Grammar) (source : Source) (call : Node) : Option String := do
  let target ← call.child? "function"
  if g.identifiers.contains target.type then some (textOf source target)
  else
    let field ← g.members.lookup target.type
    let member ← target.child? field
    some (textOf source member)

/-- The name that a node itself contributes. A call by an empty name contributes nothing. -/
def ownDependency? (g : Grammar) (source : Source) (o : Occurrence) : Option String :=
  if o.node.type == g.call then (callee? g source o.node).filter fun name => name != ""
  else if isReference g o then some (textOf source o.node)
  else none

/-- The names that the nodes of a tree contribute. -/
def dependencies (g : Grammar) (source : Source) (o : Occurrence) : NameSet :=
  NameSet.ofList (o.nodes.filterMap (ownDependency? g source))

end CodeSearch.Tree
