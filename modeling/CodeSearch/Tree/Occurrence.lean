import CodeSearch.Tree.Node

/-!
Nodes in their place, and the walk over all of them.

What a node means depends on the nodes above it, so a walk hands out each node together with its
ancestors. `visit` keeps the trees still to be walked on a stack; it ends because the trees on
the stack have fewer nodes after every step. `preorder` is the same order by recursion on the tree.
-/
set_option autoImplicit false

namespace CodeSearch.Tree

/-- A node with its ancestors, the nearest first. -/
structure Occurrence where
  node : Node
  ancestors : List Node

namespace Occurrence

instance : Inhabited Occurrence := ⟨⟨default, []⟩⟩

/-- The root of a tree in its place. -/
def ofRoot (root : Node) : Occurrence := ⟨root, []⟩

/-- The node above. -/
def parent? (o : Occurrence) : Option Node := o.ancestors.head?

/-- The children in their places, in the order of the text. -/
def below (o : Occurrence) : List Occurrence :=
  o.node.children.map fun child => ⟨child, o.node :: o.ancestors⟩

/-- The number of nodes in the trees on a stack. -/
def load (stack : List Occurrence) : Nat :=
  Node.sizeAll (stack.map (·.node))

@[simp] theorem map_node_below (o : Occurrence) : o.below.map (·.node) = o.node.children := by
  simp [below, Function.comp_def]

/-- Putting the children of the first tree in its place takes one node off the stack. -/
theorem load_below_append (o : Occurrence) (stack : List Occurrence) :
    load (o.below ++ stack) + 1 = load (o :: stack) := by
  simp only [load, List.map_append, map_node_below, Node.sizeAll_append, List.map_cons, Node.sizeAll,
    Node.size_eq o.node]
  omega

/-- All nodes of the trees on a stack: the first tree, its children from left to right, then the
other trees. -/
def visit : List Occurrence → List Occurrence
  | [] => []
  | o :: stack => o :: visit (o.below ++ stack)
termination_by stack => load stack
decreasing_by have := load_below_append o stack; omega

mutual

/-- All nodes of a tree below given ancestors: the root, then the children from left to right. -/
def preorderFrom (ancestors : List Node) : Node → List Occurrence
  | ⟨type, start, stop, named, missing, flagged, field, children⟩ =>
    let node : Node := ⟨type, start, stop, named, missing, flagged, field, children⟩
    ⟨node, ancestors⟩ :: preorderAll (node :: ancestors) children

/-- All nodes of several trees below given ancestors, one tree after the other. -/
def preorderAll (ancestors : List Node) : List Node → List Occurrence
  | [] => []
  | n :: rest => preorderFrom ancestors n ++ preorderAll ancestors rest

end

/-- All nodes of a tree, a node before its children and these from left to right. -/
def preorder (o : Occurrence) : List Occurrence :=
  preorderFrom o.ancestors o.node

/-- All nodes of a tree, by the walk with a stack. -/
def nodes (o : Occurrence) : List Occurrence :=
  visit [o]

end Occurrence

end CodeSearch.Tree
