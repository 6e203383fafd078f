import CodeSearch.Tree.Grammar
import CodeSearch.Tree.Occurrence

/-!
How many ways control can take through a piece of code.

One, and one more for every node at which it can go two ways: branches, and the operators that may
leave out their second operand.
-/
set_option autoImplicit false

namespace CodeSearch.Tree

/-- Whether a node is a binary operator that may leave out its second operand. -/
def isLogical (g : Grammar) (n : Node) : Bool :=
  n.type == g.logical &&
    match n.child? "operator" with
    | some operator => g.logicalOperators.contains operator.type
    | none => false

/-- Whether control can go two ways at a node. -/
def isFork (g : Grammar) (n : Node) : Bool :=
  g.branches.contains n.type || isLogical g n

/-- The number of forks in the trees on a stack. The children of a tree are put on it so that the
last one comes first; the order has no influence on the number. -/
def forks (g : Grammar) : List Node → Nat
  | [] => 0
  | n :: stack => (if isFork g n then 1 else 0) + forks g (n.children.reverse ++ stack)
termination_by stack => Node.sizeAll stack
decreasing_by simp [Node.sizeAll, Node.size_eq n]

/-- The complexity of a piece of code. -/
def complexity (g : Grammar) (n : Node) : Nat :=
  1 + forks g [n]

end CodeSearch.Tree
