import Mathlib.Data.List.Lex
import CodeSearch.Tree.Occurrence

/-!
Where a node stands in its tree.

Two nodes of a tree may be alike with all that is above and below them, so nodes are told apart by their
addresses: which child to take at every step on the way down (`Occurrence.at?`). The loop with a stack and
the recursion on the tree are one walk (`nodes_eq_preorder`). It comes to the addresses of a tree one after
the other (`map_at?_addresses`) and in the order of a dictionary (`pairwise_addresses`), where an address
stands before all those that begin with it. In a tree whose siblings do not overlap this is the order of the
text (`pairwise_start_nodes`).
-/
set_option autoImplicit false

namespace CodeSearch.Tree

/-- Which child to take at every step down from a node. -/
abbrev Address := List Nat

mutual

/-- The addresses of the nodes of a tree: the root, then what is below its children from left to right. -/
def Node.addresses : Node → List Address
  | ⟨_, _, _, _, _, _, _, children⟩ => [] :: addressesFrom 0 children

/-- The addresses of the nodes of several siblings, of which the first one has the given place. -/
def Node.addressesFrom (place : Nat) : List Node → List Address
  | [] => []
  | n :: rest => n.addresses.map (place :: ·) ++ addressesFrom (place + 1) rest

end

/-- Whether the node at one address has the node at the other one below it. -/
def Address.Above (a b : Address) : Prop := a <+: b ∧ a ≠ b

theorem Address.Above.lt {a b : Address} (h : a.Above b) : a < b := by
  obtain ⟨⟨rest, rfl⟩, hne⟩ := h
  cases rest with
  | nil => exact absurd (List.append_nil a).symm hne
  | cons place rest =>
    have hless : a ++ [] < a ++ place :: rest := List.append_left_lt (List.nil_lt_cons place rest)
    rwa [List.append_nil] at hless

namespace Node

theorem size_le_sizeAll {c : Node} {ns : List Node} (hc : c ∈ ns) : c.size ≤ sizeAll ns := by
  induction ns with
  | nil => cases hc
  | cons n rest ih =>
    rw [sizeAll]
    rcases List.mem_cons.mp hc with rfl | hrest
    · exact Nat.le_add_right _ _
    · exact (ih hrest).trans (Nat.le_add_left _ _)

theorem addressesFrom_eq (place : Nat) (ns : List Node) :
    addressesFrom place ns = (ns.zipIdx place).flatMap fun p => p.1.addresses.map (p.2 :: ·) := by
  induction ns generalizing place with
  | nil => rfl
  | cons n rest ih => rw [addressesFrom, ih, List.zipIdx_cons, List.flatMap_cons]

end Node

namespace Occurrence

variable {o x y : Occurrence}

/-! ## The walk by recursion -/

/-- What holds of a node if it holds of its children holds of every node. -/
@[elab_as_elim]
theorem induction {motive : Occurrence → Prop}
    (step : ∀ o : Occurrence, (∀ x ∈ o.below, motive x) → motive o) (o : Occurrence) : motive o :=
  step o fun x _hx => induction step x
termination_by o.node.size
decreasing_by
  obtain ⟨child, hchild, rfl⟩ := List.mem_map.mp _hx
  have hle := Node.size_le_sizeAll hchild
  rw [Node.size_eq o.node]
  dsimp only
  omega

theorem preorderAll_eq (ancestors ns : List Node) :
    preorderAll ancestors ns = ns.flatMap (preorderFrom ancestors) := by
  induction ns with
  | nil => rfl
  | cons n rest ih => rw [preorderAll, ih, List.flatMap_cons]

/-- A node comes first, then the nodes below its children from left to right. -/
theorem preorder_eq (o : Occurrence) : o.preorder = o :: o.below.flatMap preorder := by
  obtain ⟨⟨type, start, stop, named, missing, flagged, field, children⟩, ancestors⟩ := o
  rw [preorder, preorderFrom, preorderAll_eq, below, List.flatMap_map]
  rfl

/-- The walk with a stack comes to the nodes of one tree after the other. -/
theorem visit_eq_flatMap (stack : List Occurrence) : visit stack = stack.flatMap preorder := by
  induction stack using visit.induct with
  | case1 => rw [visit, List.flatMap_nil]
  | case2 o stack ih =>
    rw [visit, ih, List.flatMap_append, List.flatMap_cons, preorder_eq o, List.cons_append]

theorem nodes_eq_preorder (o : Occurrence) : o.nodes = o.preorder := by
  rw [nodes, visit_eq_flatMap, List.flatMap_singleton]

theorem nodes_eq (o : Occurrence) : o.nodes = o :: o.below.flatMap nodes := by
  rw [nodes_eq_preorder, preorder_eq]
  exact congrArg (o :: ·) (List.flatMap_congr fun x _ => (nodes_eq_preorder x).symm)

theorem self_mem_nodes (o : Occurrence) : o ∈ o.nodes := by
  rw [nodes_eq]
  exact List.mem_cons_self

/-! ## Addresses -/

/-- The node at an address below a node. -/
def at? : Occurrence → Address → Option Occurrence
  | o, [] => some o
  | o, place :: rest =>
    match o.below[place]? with
    | none => none
    | some x => x.at? rest

theorem at?_nil (o : Occurrence) : o.at? [] = some o := rfl

theorem at?_cons {place : Nat} (hx : o.below[place]? = some x) (rest : Address) :
    o.at? (place :: rest) = x.at? rest := by
  rw [at?, hx]

theorem at?_cons_inv {place : Nat} {rest : Address} (h : o.at? (place :: rest) = some y) :
    ∃ x, o.below[place]? = some x ∧ x.at? rest = some y := by
  rw [at?] at h
  split at h
  · cases h
  · rename_i x hx
    exact ⟨x, hx, h⟩

theorem at?_append (o : Occurrence) (a b : Address) :
    o.at? (a ++ b) = (o.at? a).bind fun x => x.at? b := by
  induction a generalizing o with
  | nil => rfl
  | cons place rest ih =>
    rw [List.cons_append, at?, at?]
    split
    · rfl
    · exact ih _

theorem addresses_eq (o : Occurrence) :
    o.node.addresses = [] :: o.below.zipIdx.flatMap fun p => p.1.node.addresses.map (p.2 :: ·) := by
  obtain ⟨⟨type, start, stop, named, missing, flagged, field, children⟩, ancestors⟩ := o
  rw [Node.addresses, Node.addressesFrom_eq, below, List.zipIdx_map, List.flatMap_map]
  rfl

/-- The walk over a tree comes to the nodes at its addresses, one after the other. -/
theorem map_at?_addresses (o : Occurrence) : o.node.addresses.map o.at? = o.nodes.map some := by
  induction o using induction with
  | step o ih =>
    have hchild : ∀ p ∈ o.below.zipIdx,
        (p.1.node.addresses.map (p.2 :: ·)).map o.at? = p.1.nodes.map some := by
      intro p hp
      have hplace := List.mk_mem_zipIdx_iff_getElem?.mp hp
      rw [← ih p.1 (List.mem_of_getElem? hplace), List.map_map]
      exact List.map_congr_left fun rest _ => at?_cons hplace rest
    rw [addresses_eq, nodes_eq, List.map_cons, List.map_cons, at?_nil, List.map_flatMap,
      List.map_flatMap, List.flatMap_congr hchild]
    -- the places of the children are not needed any more
    have hplain := List.flatMap_map Prod.fst (fun x => x.nodes.map some) o.below.zipIdx
    rw [← hplain, List.zipIdx_map_fst]

theorem mem_addresses_of_at? {a : Address} (h : o.at? a = some x) : a ∈ o.node.addresses := by
  induction a generalizing o with
  | nil =>
    rw [addresses_eq]
    exact List.mem_cons_self
  | cons place rest ih =>
    obtain ⟨child, hchild, hrest⟩ := at?_cons_inv h
    rw [addresses_eq]
    refine List.mem_cons_of_mem _ (List.mem_flatMap.mpr ⟨(child, place), ?_, ?_⟩)
    · exact List.mk_mem_zipIdx_iff_getElem?.mpr hchild
    · exact List.mem_map_of_mem (ih hrest)

theorem mem_addresses_iff {a : Address} : a ∈ o.node.addresses ↔ ∃ x, o.at? a = some x := by
  refine ⟨fun ha => ?_, fun ⟨x, hx⟩ => mem_addresses_of_at? hx⟩
  have hwalk : o.at? a ∈ o.nodes.map some := map_at?_addresses o ▸ List.mem_map_of_mem ha
  obtain ⟨x, -, hx⟩ := List.mem_map.mp hwalk
  exact ⟨x, hx.symm⟩

/-- The nodes of a tree are those that have an address in it. -/
theorem mem_nodes_iff : x ∈ o.nodes ↔ ∃ a, o.at? a = some x := by
  have hwalk : some x ∈ o.nodes.map some ↔ x ∈ o.nodes :=
    List.mem_map_of_injective fun _ _ => Option.some.inj
  rw [← hwalk, ← map_at?_addresses, List.mem_map]
  constructor
  · rintro ⟨a, -, ha⟩
    exact ⟨a, ha⟩
  · rintro ⟨a, ha⟩
    exact ⟨a, mem_addresses_of_at? ha, ha⟩

/-- What is below a node of a tree is in the tree. -/
theorem nodes_subset_of_at? {a : Address} (h : o.at? a = some x) : x.nodes ⊆ o.nodes := by
  intro y hy
  obtain ⟨b, hb⟩ := mem_nodes_iff.mp hy
  refine mem_nodes_iff.mpr ⟨a ++ b, ?_⟩
  rw [at?_append, h]
  exact hb

theorem mem_nodes_of_mem_below (hx : x ∈ o.nodes) (hy : y ∈ x.below) : y ∈ o.nodes := by
  obtain ⟨a, ha⟩ := mem_nodes_iff.mp hx
  apply nodes_subset_of_at? ha
  rw [nodes_eq]
  exact List.mem_cons_of_mem _ (List.mem_flatMap.mpr ⟨y, hy, y.self_mem_nodes⟩)

theorem pairwise_zipIdx {α : Type} (xs : List α) :
    xs.zipIdx.Pairwise fun p q => p.2 < q.2 := by
  have hplaces : (xs.zipIdx.map Prod.snd).Pairwise (· < ·) := by
    rw [List.zipIdx_map_snd]
    exact List.pairwise_lt_range'
  exact List.pairwise_map.mp hplaces

/-- The walk comes to the addresses in the order of a dictionary, and to none of them twice. -/
theorem pairwise_addresses (o : Occurrence) : o.node.addresses.Pairwise (· < ·) := by
  induction o using induction with
  | step o ih =>
    rw [addresses_eq, List.pairwise_cons, List.pairwise_flatMap]
    refine ⟨?_, ?_, ?_⟩
    · -- every other address takes a step
      intro a ha
      obtain ⟨p, -, hmem⟩ := List.mem_flatMap.mp ha
      obtain ⟨rest, -, rfl⟩ := List.mem_map.mp hmem
      exact List.nil_lt_cons _ _
    · intro p hp
      have hplace := List.mk_mem_zipIdx_iff_getElem?.mp hp
      refine List.pairwise_map.mpr ((ih p.1 (List.mem_of_getElem? hplace)).imp fun hless => ?_)
      exact List.cons_lt_cons_iff.mpr (Or.inr ⟨rfl, hless⟩)
    · refine (pairwise_zipIdx o.below).imp fun hless => ?_
      intro a ha b hb
      obtain ⟨_, -, rfl⟩ := List.mem_map.mp ha
      obtain ⟨_, -, rfl⟩ := List.mem_map.mp hb
      exact List.cons_lt_cons_iff.mpr (Or.inl hless)

end Occurrence

/-! ## The order of the text -/

/-- A node that covers its children, of which each one begins where the ones before it have ended. -/
structure Node.LaidOut (n : Node) : Prop where
  le : n.start ≤ n.stop
  covers : ∀ c ∈ n.children, n.start ≤ c.start ∧ c.stop ≤ n.stop
  apart : n.children.Pairwise fun c d => c.stop ≤ d.start

instance (n : Node) : Decidable n.LaidOut :=
  decidable_of_iff
    (n.start ≤ n.stop ∧ (∀ c ∈ n.children, n.start ≤ c.start ∧ c.stop ≤ n.stop) ∧
      n.children.Pairwise fun c d => c.stop ≤ d.start)
    ⟨fun ⟨hle, hcovers, hapart⟩ => ⟨hle, hcovers, hapart⟩, fun h => ⟨h.le, h.covers, h.apart⟩⟩

namespace Occurrence

variable {o x : Occurrence}

theorem laidOut_below (hlaid : ∀ y ∈ o.nodes, y.node.LaidOut) (hx : x ∈ o.below) :
    ∀ y ∈ x.nodes, y.node.LaidOut := by
  intro y hy
  apply hlaid y
  rw [nodes_eq]
  exact List.mem_cons_of_mem _ (List.mem_flatMap.mpr ⟨x, hx, hy⟩)

theorem covers_below (hlaid : ∀ y ∈ o.nodes, y.node.LaidOut) (hx : x ∈ o.below) :
    o.node.start ≤ x.node.start ∧ x.node.stop ≤ o.node.stop := by
  obtain ⟨child, hchild, rfl⟩ := List.mem_map.mp hx
  exact (hlaid o o.self_mem_nodes).covers child hchild

/-- All that is below a node stands between its two ends. -/
theorem covers_nodes (hlaid : ∀ y ∈ o.nodes, y.node.LaidOut) (hx : x ∈ o.nodes) :
    o.node.start ≤ x.node.start ∧ x.node.start ≤ o.node.stop := by
  induction o using induction with
  | step o ih =>
    have hle := (hlaid x hx).le
    rw [nodes_eq, List.mem_cons, List.mem_flatMap] at hx
    rcases hx with rfl | ⟨child, hchild, hmem⟩
    · exact ⟨Nat.le_refl _, hle⟩
    · obtain ⟨hstart, hstop⟩ := covers_below hlaid hchild
      have hchildren := ih child hchild (laidOut_below hlaid hchild) hmem
      omega

/-- Where no siblings overlap, the walk comes to the nodes in the order in which they begin. -/
theorem pairwise_start_nodes (hlaid : ∀ y ∈ o.nodes, y.node.LaidOut) :
    o.nodes.Pairwise fun x y => x.node.start ≤ y.node.start := by
  induction o using induction with
  | step o ih =>
    have hroot := (hlaid o o.self_mem_nodes).apart
    rw [nodes_eq, List.pairwise_cons, List.pairwise_flatMap]
    refine ⟨?_, ?_, ?_⟩
    · intro x hx
      apply (covers_nodes hlaid _).1
      rw [nodes_eq]
      exact List.mem_cons_of_mem _ hx
    · intro child hchild
      exact ih child hchild (laidOut_below hlaid hchild)
    · -- what is below a child begins before the child ends, and thus before the next one begins
      rw [← map_node_below] at hroot
      refine (List.pairwise_map.mp hroot).imp_of_mem fun {c d} hc hd hapart => ?_
      intro x hx y hy
      have hfirst := (covers_nodes (laidOut_below hlaid hc) hx).2
      have hsecond := (covers_nodes (laidOut_below hlaid hd) hy).1
      omega

end Occurrence

end CodeSearch.Tree
