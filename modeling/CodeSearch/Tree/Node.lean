/-!
Concrete syntax trees.

A node has the type that its grammar gives it, the span of octets it covers, and its children in
the order of the text. A child may stand under a field of its parent. A tree is marked as faulty
from a node upwards where the parser could not make sense of the text.
-/
set_option autoImplicit false

namespace CodeSearch.Tree

/-- A node with all that is below it. -/
structure Node where
  /-- The type of the node in its grammar. -/
  type : String
  /-- The octets from `start` up to `stop`, the latter not included. -/
  start : Nat
  stop : Nat
  /-- Whether it has a name of its own in the grammar, and is not a mere token. -/
  named : Bool
  /-- Whether the parser put it in because the text lacks it. -/
  missing : Bool
  /-- Whether it is marked as faulty for a reason that cannot be seen below it. -/
  flagged : Bool
  /-- The field of the parent under which it stands; empty if none. -/
  field : String
  /-- What is below, in the order of the text. -/
  children : List Node

namespace Node

instance : Inhabited Node := ⟨⟨"", 0, 0, true, false, false, "", []⟩⟩

mutual

/-- The number of nodes of a tree. -/
def size : Node → Nat
  | ⟨_, _, _, _, _, _, _, children⟩ => 1 + sizeAll children

/-- The number of nodes of several trees. -/
def sizeAll : List Node → Nat
  | [] => 0
  | n :: rest => size n + sizeAll rest

end

/-- The type of the nodes that stand for text the parser could not read. -/
def errorType : String := "ERROR"

/-- Whether the fault is in the node itself. -/
def isFault (n : Node) : Bool :=
  n.type == errorType || n.missing

mutual

/-- Whether a tree is marked as faulty: its root is, or some tree below it. -/
def hasError : Node → Bool
  | ⟨type, _, _, _, missing, flagged, _, children⟩ =>
    type == errorType || missing || flagged || anyError children

/-- Whether one of several trees is marked as faulty. -/
def anyError : List Node → Bool
  | [] => false
  | n :: rest => hasError n || anyError rest

end

/-- The children under a field. -/
def childrenAt (n : Node) (field : String) : List Node :=
  n.children.filter fun child => child.field == field

/-- The first child under a field. -/
def child? (n : Node) (field : String) : Option Node :=
  n.children.find? fun child => child.field == field

/-- The children that have names of their own. -/
def namedChildren (n : Node) : List Node :=
  n.children.filter (·.named)

/-- A tree has as many nodes as its children together, and one more. -/
theorem size_eq (n : Node) : n.size = 1 + sizeAll n.children := by
  cases n; rw [size]

/-- The nodes of two lists of trees are counted together. -/
@[simp] theorem sizeAll_append (xs ys : List Node) :
    sizeAll (xs ++ ys) = sizeAll xs + sizeAll ys := by
  induction xs with
  | nil => simp [sizeAll]
  | cons n rest ih => simp [sizeAll, ih, Nat.add_assoc]

/-- The order of several trees does not matter for the number of their nodes. -/
@[simp] theorem sizeAll_reverse (ns : List Node) : sizeAll ns.reverse = sizeAll ns := by
  induction ns with
  | nil => rfl
  | cons n rest ih => simp [sizeAll, ih, Nat.add_comm]

/-- Leaving trees out leaves no more nodes. -/
theorem sizeAll_filter_le (keep : Node → Bool) (ns : List Node) :
    sizeAll (ns.filter keep) ≤ sizeAll ns := by
  induction ns with
  | nil => simp
  | cons n rest ih =>
    simp only [List.filter_cons]
    split <;> simp only [sizeAll] <;> omega

end Node

end CodeSearch.Tree
