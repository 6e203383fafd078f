import CodeSearch.Text.Source
import CodeSearch.Tree.Node

/-!
Where a text stops making sense.

The first fault is looked for in the order of the text, and only below nodes that are marked as
faulty. A tree may be marked without a node that is itself at fault; then no place can be given.
-/
set_option autoImplicit false

namespace CodeSearch.Tree

open CodeSearch.Text (Source)

/-- Whether a fault can be in a tree. -/
def mayFail (n : Node) : Bool :=
  n.hasError || n.missing

/-- The first node at fault in the trees on a stack. -/
def firstFault : List Node → Option Node
  | [] => none
  | n :: stack =>
    if n.isFault then some n else firstFault (n.children.filter mayFail ++ stack)
termination_by stack => Node.sizeAll stack
decreasing_by
  have := Node.sizeAll_filter_le mayFail n.children
  simp [Node.sizeAll, Node.size_eq n]; omega

/-- The wording of a fault at a node: what is wrong, in which line and at which octet of it. -/
def faultAt (source : Source) (n : Node) : String :=
  let what := if n.missing then s!"missing '{n.type}'" else "syntax error"
  s!"{what} at line {source.rowAt n.start + 1}, column {source.columnAt n.start + 1}"

/-- The wording of what is wrong with a tree that is marked as faulty. -/
def describeFault (source : Source) (root : Node) : String :=
  match firstFault [root] with
  | some n => faultAt source n
  | none => "syntax error"

end CodeSearch.Tree
