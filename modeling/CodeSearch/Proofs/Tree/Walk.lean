import Mathlib.Logic.Function.Iterate
import CodeSearch.Proofs.Tree.Address

/-!
The walk with a stack, round by round.

Every round takes the last tree off the stack, hands out its root and puts the children on the stack from
right to left. What has been handed out and what is still ahead stay the same together
(`handedOut_append_ahead_step`), and the trees on the stack have one node less after a round (`load_step`),
though there may be more trees. So the walk over a tree ends after as many rounds as the tree has nodes, and
not before, and has handed out the nodes in the order of the recursion by then (`run_ofRoot`). What the nodes
of a tree give by themselves is therefore gathered by recursion on the tree (`flatMap_nodes`), and what is
gathered below one of them stands together (`gather_infix_of_at?`).
-/
set_option autoImplicit false

namespace CodeSearch.Tree

namespace Occurrence

/-! ## How long a walk is -/

theorem length_visit (stack : List Occurrence) : (visit stack).length = load stack := by
  induction stack using visit.induct with
  | case1 =>
    rw [visit]
    rfl
  | case2 o stack ih => rw [visit, List.length_cons, ih, load_below_append]

theorem load_singleton (o : Occurrence) : load [o] = o.node.size := by
  rw [load, List.map_singleton, Node.sizeAll, Node.sizeAll, Nat.add_zero]

theorem length_preorder (o : Occurrence) : o.preorder.length = o.node.size := by
  rw [← nodes_eq_preorder, nodes, length_visit, load_singleton]

theorem load_eq_zero_iff {stack : List Occurrence} : load stack = 0 ↔ stack = [] := by
  constructor
  · intro hload
    cases stack with
    | nil => rfl
    | cons o rest =>
      have hless := load_below_append o rest
      omega
  · rintro rfl
    rfl

theorem load_reverse (stack : List Occurrence) : load stack.reverse = load stack := by
  rw [load, load, List.map_reverse, Node.sizeAll_reverse]

end Occurrence

/-! ## Rounds -/

/-- How far a walk has come: the nodes that it has handed out, and the stack of the trees that are still to
be walked over, the next one last. -/
structure Walk where
  handedOut : List Occurrence
  pending : List Occurrence

namespace Walk

/-- The walk over a tree before its first round. -/
def ofRoot (o : Occurrence) : Walk := ⟨[], [o]⟩

/-- One round of a walk. With an empty stack there is nothing to do. -/
def step (w : Walk) : Walk :=
  match w.pending.getLast? with
  | none => w
  | some o => ⟨w.handedOut ++ [o], w.pending.dropLast ++ o.below.reverse⟩

/-- The nodes that are still to be handed out. -/
def ahead (w : Walk) : List Occurrence := Occurrence.visit w.pending.reverse

/-- A walk is over, or its next round is about the last tree on the stack. -/
theorem step_cases (w : Walk) :
    w.pending = [] ∧ w.step = w ∨
      ∃ stack o, w.pending = stack ++ [o] ∧ w.step = ⟨w.handedOut ++ [o], stack ++ o.below.reverse⟩ := by
  cases hlast : w.pending.getLast? with
  | none =>
    refine Or.inl ⟨List.getLast?_eq_none_iff.mp hlast, ?_⟩
    rw [step, hlast]
  | some o =>
    obtain ⟨stack, hpending⟩ := List.getLast?_eq_some_iff.mp hlast
    refine Or.inr ⟨stack, o, hpending, ?_⟩
    rw [step, hlast, hpending, List.dropLast_concat]

theorem handedOut_append_ahead_step (w : Walk) :
    w.step.handedOut ++ w.step.ahead = w.handedOut ++ w.ahead := by
  rcases w.step_cases with ⟨-, hstep⟩ | ⟨stack, o, hpending, hstep⟩
  · rw [hstep]
  · -- seen from the last tree on, the children come from left to right
    have hahead : w.ahead = o :: Occurrence.visit (o.below ++ stack.reverse) := by
      rw [ahead, hpending, List.reverse_concat, Occurrence.visit]
    rw [hstep, hahead, ahead, List.reverse_append, List.reverse_reverse, List.append_assoc,
      List.singleton_append]

/-- A round takes one node off the stack, however many children the node has. -/
theorem load_step (w : Walk) :
    Occurrence.load w.step.pending = Occurrence.load w.pending - 1 := by
  rcases w.step_cases with ⟨hempty, hstep⟩ | ⟨stack, o, hpending, hstep⟩
  · rw [hstep, hempty]
    rfl
  · have hless := Occurrence.load_below_append o stack.reverse
    rw [hstep, hpending, ← Occurrence.load_reverse, ← Occurrence.load_reverse (stack ++ [o]),
      List.reverse_append, List.reverse_reverse, List.reverse_concat]
    omega

theorem handedOut_append_ahead_iterate (w : Walk) (k : Nat) :
    (step^[k] w).handedOut ++ (step^[k] w).ahead = w.handedOut ++ w.ahead := by
  induction k with
  | zero => rfl
  | succ k ih => rw [Function.iterate_succ_apply', handedOut_append_ahead_step, ih]

theorem load_iterate (w : Walk) (k : Nat) :
    Occurrence.load (step^[k] w).pending = Occurrence.load w.pending - k := by
  induction k with
  | zero => rfl
  | succ k ih => rw [Function.iterate_succ_apply', load_step, ih, Nat.sub_sub]

theorem length_ahead (w : Walk) : w.ahead.length = Occurrence.load w.pending := by
  rw [ahead, Occurrence.length_visit, Occurrence.load_reverse]

/-- After some rounds the walk over a tree has handed out that many of its nodes, in the order of the
recursion, and the trees on the stack have the other ones. The stack is empty once there have been as many
rounds as there are nodes. -/
theorem run_ofRoot (o : Occurrence) (k : Nat) :
    (step^[k] (ofRoot o)).handedOut = o.preorder.take k ∧
      (step^[k] (ofRoot o)).pending.reverse.flatMap Occurrence.preorder = o.preorder.drop k ∧
      ((step^[k] (ofRoot o)).pending = [] ↔ o.node.size ≤ k) := by
  have hload := load_iterate (ofRoot o) k
  rw [ofRoot, Occurrence.load_singleton, ← ofRoot] at hload
  have htotal : (step^[k] (ofRoot o)).handedOut ++ (step^[k] (ofRoot o)).ahead =
      o.preorder.take k ++ o.preorder.drop k := by
    rw [handedOut_append_ahead_iterate, List.take_append_drop, ← Occurrence.nodes_eq_preorder]
    rfl
  -- what is ahead is as long as what is left of the recursion, so the two lists are cut at one place
  have hahead : (step^[k] (ofRoot o)).ahead.length = (o.preorder.drop k).length := by
    rw [length_ahead, hload, List.length_drop, Occurrence.length_preorder]
  obtain ⟨hfront, hback⟩ := List.append_inj' htotal hahead
  rw [ahead, Occurrence.visit_eq_flatMap] at hback
  refine ⟨hfront, hback, ?_⟩
  rw [← Occurrence.load_eq_zero_iff, hload, Nat.sub_eq_zero_iff_le]

end Walk

/-! ## What a walk gathers -/

namespace Occurrence

variable {α : Type} {o x : Occurrence} {give : Occurrence → List α}

mutual

/-- What the nodes of a tree below given ancestors give: the root, then what is below its children from left
to right. -/
def gatherFrom (give : Occurrence → List α) (ancestors : List Node) : Node → List α
  | ⟨type, start, stop, named, missing, flagged, field, children⟩ =>
    let node : Node := ⟨type, start, stop, named, missing, flagged, field, children⟩
    give ⟨node, ancestors⟩ ++ gatherAll give (node :: ancestors) children

/-- What the nodes of several trees below given ancestors give, one tree after the other. -/
def gatherAll (give : Occurrence → List α) (ancestors : List Node) : List Node → List α
  | [] => []
  | n :: rest => gatherFrom give ancestors n ++ gatherAll give ancestors rest

end

/-- What the nodes of a tree give, a node before its children and these from left to right. -/
def gather (give : Occurrence → List α) (o : Occurrence) : List α :=
  gatherFrom give o.ancestors o.node

theorem gatherAll_eq (give : Occurrence → List α) (ancestors ns : List Node) :
    gatherAll give ancestors ns = ns.flatMap (gatherFrom give ancestors) := by
  induction ns with
  | nil => rfl
  | cons n rest ih => rw [gatherAll, ih, List.flatMap_cons]

theorem gather_eq (give : Occurrence → List α) (o : Occurrence) :
    o.gather give = give o ++ o.below.flatMap (gather give) := by
  obtain ⟨⟨type, start, stop, named, missing, flagged, field, children⟩, ancestors⟩ := o
  rw [gather, gatherFrom, gatherAll_eq, below, List.flatMap_map]
  rfl

/-- Asking the nodes one after the other, as the walk comes to them, is the recursion. -/
theorem flatMap_nodes (give : Occurrence → List α) (o : Occurrence) :
    o.nodes.flatMap give = o.gather give := by
  -- the induction is on nodes in their places, since what a node gives depends on those above it
  induction o using induction with
  | step o ih =>
    rw [nodes_eq, List.flatMap_cons, List.flatMap_assoc, gather_eq, List.flatMap_congr ih]

theorem map_gather {β : Type} (f : α → β) (give : Occurrence → List α) (o : Occurrence) :
    (o.gather give).map f = o.gather fun x => (give x).map f := by
  rw [← flatMap_nodes, ← flatMap_nodes, List.map_flatMap]

theorem gather_infix_flatMap_below (hx : x ∈ o.below) :
    x.gather give <:+: o.below.flatMap (gather give) :=
  List.infix_of_mem_flatten (List.mem_map_of_mem hx)

/-- What the nodes below a node give stands together in what those of the whole tree give. -/
theorem gather_infix_of_at? {a : Address} (hx : o.at? a = some x) :
    x.gather give <:+: o.gather give := by
  induction a generalizing o with
  | nil =>
    obtain rfl := Option.some.inj hx
    exact List.infix_refl _
  | cons place rest ih =>
    obtain ⟨child, hchild, hrest⟩ := at?_cons_inv hx
    have hbelow : child.gather give <:+: o.below.flatMap (gather give) :=
      gather_infix_flatMap_below (List.mem_of_getElem? hchild)
    rw [gather_eq give o]
    exact ((ih hrest).trans hbelow).trans (List.suffix_append _ _).isInfix

/-- What a node gives comes before what any node below it gives. -/
theorem append_sublist_gather {a : Address} (ha : a ≠ []) (hx : o.at? a = some x) :
    (give o ++ give x).Sublist (o.gather give) := by
  obtain ⟨place, rest, rfl⟩ := List.exists_cons_of_ne_nil ha
  obtain ⟨child, hchild, hrest⟩ := at?_cons_inv hx
  have hown : (give x).Sublist (x.gather give) := by
    rw [gather_eq]
    exact List.sublist_append_left _ _
  -- the first step leads to a child, and what is below the children comes after what the node gives
  have hbelow : child.gather give <:+: o.below.flatMap (gather give) :=
    gather_infix_flatMap_below (List.mem_of_getElem? hchild)
  rw [gather_eq give o]
  exact (List.Sublist.refl _).append
    ((hown.trans (gather_infix_of_at? hrest).sublist).trans hbelow.sublist)

end Occurrence

end CodeSearch.Tree
