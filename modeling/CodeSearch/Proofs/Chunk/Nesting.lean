import Mathlib.Algebra.GroupWithZero.Nat
import Mathlib.Algebra.Ring.Int.Defs
import CodeSearch.Chunk.Extraction
import CodeSearch.Proofs.Chunk.Placement
import CodeSearch.Proofs.Tree.Naming

/-!
What a declaration has in common with those inside of it.

The number of forks of a piece of code is counted with a stack, the names it depends on are gathered along
the walk, and the two loops do not come to the nodes in the same order. Both add up what every node has by
itself, so for a node they are made of what its children have (`complexity_eq_sum`, `mem_dependencies_iff`),
where a child is looked at with its real parent, also if that is above the piece of code. Hence a piece of
code inside of another one has no more forks and depends on nothing that the outer one does not depend on,
and the same holds of the chunks that are made of them (`nested_within`).
-/
set_option autoImplicit false

namespace CodeSearch

open CodeSearch.Text (Source NameSet)
open CodeSearch.Tree

namespace Tree

variable {g : Grammar} {source : Source} {o x : Occurrence}

/-! ## Forks -/

theorem forks_append (g : Grammar) (xs ys : List Node) :
    forks g (xs ++ ys) = forks g xs + forks g ys := by
  -- by the count itself: the children of the first tree go on top of the trees still to be counted
  induction xs using forks.induct with
  | case1 => rw [List.nil_append, forks, Nat.zero_add]
  | case2 n stack ih =>
    rw [List.unattach_reverse, List.unattach_attach] at ih
    rw [List.cons_append, forks, forks, ← List.append_assoc, ih, Nat.add_assoc]

/-- The trees on a stack are counted one by one, so their order does not matter. -/
theorem forks_eq_sum (g : Grammar) (ns : List Node) :
    forks g ns = (ns.map fun n => forks g [n]).sum := by
  induction ns with
  | nil => rw [forks, List.map_nil, List.sum_nil]
  | cons n rest ih =>
    have hsplit := forks_append g [n] rest
    rw [List.singleton_append] at hsplit
    rw [hsplit, ih, List.map_cons, List.sum_cons]

theorem forks_singleton (g : Grammar) (n : Node) :
    forks g [n] = (if isFork g n then 1 else 0) + forks g n.children := by
  rw [forks, List.append_nil, forks_eq_sum, List.map_reverse, List.sum_reverse, ← forks_eq_sum]

theorem forks_le_of_mem {c : Node} {ns : List Node} (hc : c ∈ ns) : forks g [c] ≤ forks g ns := by
  obtain ⟨before, behind, rfl⟩ := List.append_of_mem hc
  have hsplit := forks_append g before ([c] ++ behind)
  rw [forks_append g [c] behind, List.singleton_append] at hsplit
  omega

theorem isFork_iff {n : Node} :
    isFork g n = true ↔ n.type ∈ g.branches ∨ isLogical g n = true := by
  rw [isFork, Bool.or_eq_true, List.contains_iff_mem]

/-- The complexity of a node is one, one more if control can go two ways at it, and what the complexity of
each of its children is beyond one. -/
theorem complexity_eq_sum (g : Grammar) (n : Node) :
    (complexity g n : Int) =
      1 + (if n.type ∈ g.branches ∨ isLogical g n = true then 1 else 0) +
        (n.children.map fun c => (complexity g c : Int) - 1).sum := by
  have hbeyond : ∀ ns : List Node,
      (ns.map fun c => (complexity g c : Int) - 1).sum = (forks g ns : Int) := by
    intro ns
    induction ns with
    | nil => rw [forks]; rfl
    | cons c rest ih =>
      have hsplit := forks_append g [c] rest
      rw [List.singleton_append] at hsplit
      rw [List.map_cons, List.sum_cons, ih, hsplit, complexity]
      omega
  rw [hbeyond, complexity, forks_singleton]
  by_cases hfork : isFork g n = true
  · rw [if_pos hfork, if_pos (isFork_iff.mp hfork)]
    omega
  · rw [if_neg hfork, if_neg fun h => hfork (isFork_iff.mpr h)]
    omega

theorem complexity_le_of_at? {a : Address} (hx : o.at? a = some x) :
    complexity g x.node ≤ complexity g o.node := by
  induction a generalizing o with
  | nil =>
    obtain rfl := Option.some.inj hx
    exact Nat.le_refl _
  | cons place rest ih =>
    obtain ⟨child, hchild, hrest⟩ := Occurrence.at?_cons_inv hx
    have hmem : child.node ∈ o.node.children := by
      rw [← Occurrence.map_node_below]
      exact List.mem_map_of_mem (List.mem_of_getElem? hchild)
    have hstep : forks g [child.node] ≤ forks g [o.node] := by
      rw [forks_singleton g o.node]
      exact (forks_le_of_mem hmem).trans (Nat.le_add_left _ _)
    exact (ih hrest).trans (Nat.add_le_add_left hstep 1)

/-! ## Dependencies -/

/-- A name that a node depends on is its own contribution, or one of its children depends on it. -/
theorem mem_dependencies_iff {name : String} :
    name ∈ dependencies g source o ↔
      ownDependency? g source o = some name ∨ ∃ x ∈ o.below, name ∈ dependencies g source x := by
  have hwalk : ∀ x : Occurrence, name ∈ dependencies g source x ↔
      ∃ y ∈ x.nodes, ownDependency? g source y = some name := fun x => by
    rw [dependencies, NameSet.mem_ofList, List.mem_filterMap]
  rw [hwalk, Occurrence.nodes_eq]
  constructor
  · rintro ⟨y, hy, hown⟩
    rcases List.mem_cons.mp hy with rfl | hbelow
    · exact Or.inl hown
    · obtain ⟨x, hx, hmem⟩ := List.mem_flatMap.mp hbelow
      exact Or.inr ⟨x, hx, (hwalk x).mpr ⟨y, hmem, hown⟩⟩
  · rintro (hown | ⟨x, hx, hname⟩)
    · exact ⟨o, List.mem_cons_self, hown⟩
    · obtain ⟨y, hy, hown⟩ := (hwalk x).mp hname
      exact ⟨y, List.mem_cons_of_mem _ (List.mem_flatMap.mpr ⟨x, hx, hy⟩), hown⟩

theorem dependencies_subset_of_at? {a : Address} (hx : o.at? a = some x) {name : String}
    (hname : name ∈ dependencies g source x) : name ∈ dependencies g source o := by
  induction a generalizing o with
  | nil =>
    obtain rfl := Option.some.inj hx
    exact hname
  | cons place rest ih =>
    obtain ⟨child, hchild, hrest⟩ := Occurrence.at?_cons_inv hx
    exact mem_dependencies_iff.mpr (Or.inr ⟨child, List.mem_of_getElem? hchild, ih hrest⟩)

end Tree

namespace Chunk

/-! ## Chunks -/

variable {radius : Int} {file : Parsed} {a b : Address} {c d : Chunk}

/-- The chunks that the node at an address of a file gives, before they are counted. -/
def chunksAt (radius : Int) (file : Parsed) (a : Address) : List Chunk :=
  match (Occurrence.ofRoot file.root).at? a with
  | none => []
  | some o => ofNode file file.source.lines radius o

theorem mem_chunksAt_iff : c ∈ chunksAt radius file a ↔
    ∃ o, (Occurrence.ofRoot file.root).at? a = some o ∧
      c ∈ ofNode file file.source.lines radius o := by
  rw [chunksAt]
  split
  · rename_i hnone
    simp [hnone]
  · rename_i o ho
    simp [ho]

/-- Whether a chunk is one that the node at an address gives, up to its number. -/
def StemsFrom (radius : Int) (file : Parsed) (a : Address) (c : Chunk) : Prop :=
  ∃ bare ∈ chunksAt radius file a, c = { bare with id := c.id }

theorem exists_stemsFrom (hc : c ∈ ofParsed radius file) : ∃ a, StemsFrom radius file a c := by
  obtain ⟨bare, hbare, heq⟩ := exists_of_mem_withIds hc
  obtain ⟨o, ho, hnode⟩ := List.mem_flatMap.mp hbare
  obtain ⟨a, ha⟩ := Occurrence.mem_nodes_iff.mp ho
  exact ⟨a, bare, mem_chunksAt_iff.mpr ⟨o, ha, hnode⟩, heq⟩

/-- What a chunk has from the code below its node. -/
theorem complexity_of_mem_ofNode {lines : List String} {o : Occurrence}
    (hc : c ∈ ofNode file lines radius o) :
    c.complexity = Tree.complexity file.language.grammar o.node ∧
      (c.kind ≠ "import" →
        c.dependencies = Tree.dependencies file.language.grammar file.source o) := by
  unfold ofNode at hc
  dsimp only at hc
  split at hc
  · cases hc
  rename_i declared hdeclared
  obtain ⟨part, hpart, rfl⟩ := List.mem_map.mp hc
  refine ⟨rfl, fun hkind => ?_⟩
  cases declared with
  | function name | classType name | interface name =>
    obtain rfl := List.mem_singleton.mp hpart
    rfl
  | imports modules =>
    obtain rfl := List.mem_singleton.mp hpart
    exact absurd rfl hkind
  | bindings names =>
    obtain ⟨name, -, rfl⟩ := List.mem_map.mp hpart
    rfl

theorem nested_of_prefix (hc : StemsFrom radius file a c) (hd : StemsFrom radius file b d)
    (hab : a <+: b) (hkind : c.kind ≠ "import") (hkind' : d.kind ≠ "import") :
    d.complexity ≤ c.complexity ∧ ∀ name ∈ d.dependencies, name ∈ c.dependencies := by
  obtain ⟨bare, hbare, hceq⟩ := hc
  obtain ⟨bare', hbare', hdeq⟩ := hd
  obtain ⟨o, ho, hnode⟩ := mem_chunksAt_iff.mp hbare
  obtain ⟨x, hx, hnode'⟩ := mem_chunksAt_iff.mp hbare'
  obtain ⟨rest, rfl⟩ := hab
  -- what is left of the address leads from the outer node to the inner one
  rw [Occurrence.at?_append, ho, Option.bind_some] at hx
  rw [hceq] at hkind
  rw [hdeq] at hkind'
  obtain ⟨hcomplexity, hdepends⟩ := complexity_of_mem_ofNode hnode
  obtain ⟨hcomplexity', hdepends'⟩ := complexity_of_mem_ofNode hnode'
  rw [hceq, hdeq]
  dsimp only
  rw [hcomplexity, hcomplexity', hdepends hkind, hdepends' hkind']
  exact ⟨Int.ofNat_le.mpr (complexity_le_of_at? hx), fun name => dependencies_subset_of_at? hx⟩

/-- The complexity of a node and the names it depends on are made of what it has by itself and of those of
its children, so a node inside of another one has no more of them; and of two chunks that are no imports,
the one whose node is inside of that of the other one has no greater complexity and depends on nothing
that the other one does not depend on. -/
theorem nested_within :
    (∀ (g : Grammar) (source : Source) (o : Occurrence),
      (Tree.complexity g o.node : Int) =
          1 + (if o.node.type ∈ g.branches ∨ isLogical g o.node = true then 1 else 0) +
            (o.node.children.map fun child => (Tree.complexity g child : Int) - 1).sum ∧
        (∀ name, name ∈ Tree.dependencies g source o ↔
          ownDependency? g source o = some name ∨
            ∃ x ∈ o.below, name ∈ Tree.dependencies g source x) ∧
        ∀ a x, o.at? a = some x →
          Tree.complexity g x.node ≤ Tree.complexity g o.node ∧
            ∀ name ∈ Tree.dependencies g source x, name ∈ Tree.dependencies g source o) ∧
      ∀ (radius : Int) (file : Parsed),
        (∀ c ∈ ofParsed radius file, ∃ a, StemsFrom radius file a c) ∧
          ∀ a b c d, StemsFrom radius file a c → StemsFrom radius file b d → a <+: b →
            c.kind ≠ "import" → d.kind ≠ "import" →
            d.complexity ≤ c.complexity ∧ ∀ name ∈ d.dependencies, name ∈ c.dependencies := by
  refine ⟨fun g source o => ⟨complexity_eq_sum g o.node, fun name => mem_dependencies_iff, ?_⟩, ?_⟩
  · intro a x hx
    exact ⟨complexity_le_of_at? hx, fun name => dependencies_subset_of_at? hx⟩
  · intro radius file
    refine ⟨fun c => exists_stemsFrom, ?_⟩
    intro a b c d hc hd hab hkind hkind'
    exact nested_of_prefix hc hd hab hkind hkind'

/-- A variable that is declared in a branch of a function. -/
def guardedCall : Parsed where
  path := "a.js"
  language := .javascript
  source := .ofText "function f(x) \x7b if (x) \x7b const y = x && g(x); \x7d \x7d".toList
  root := ⟨"program", 0, 49, true, false, false, "", [
    ⟨"function_declaration", 0, 49, true, false, false, "", [
      leaf "identifier" 9 10 true "name",
      ⟨"formal_parameters", 10, 13, true, false, false, "parameters", [leaf "identifier" 11 12 true ""]⟩,
      ⟨"statement_block", 14, 49, true, false, false, "body", [
        ⟨"if_statement", 16, 47, true, false, false, "", [
          ⟨"parenthesized_expression", 19, 22, true, false, false, "condition",
            [leaf "identifier" 20 21 true ""]⟩,
          ⟨"statement_block", 23, 47, true, false, false, "consequence", [
            ⟨"lexical_declaration", 25, 45, true, false, false, "", [
              ⟨"variable_declarator", 31, 44, true, false, false, "", [
                leaf "identifier" 31 32 true "name",
                ⟨"binary_expression", 35, 44, true, false, false, "value", [
                  leaf "identifier" 35 36 true "left", leaf "&&" 37 39 false "operator",
                  ⟨"call_expression", 40, 44, true, false, false, "right", [
                    leaf "identifier" 40 41 true "function",
                    ⟨"arguments", 41, 44, true, false, false, "arguments",
                      [leaf "identifier" 42 43 true ""]⟩]⟩]⟩]⟩]⟩]⟩]⟩]⟩]⟩]⟩

/-- The function forks at the branch and at the operator, the variable at the operator only. -/
theorem nested_within_guardedCall :
    ∃ c d, StemsFrom 1 guardedCall [0] c ∧ StemsFrom 1 guardedCall [0, 2, 0, 1, 0] d ∧
      c.kind = "function" ∧ c.complexity = 3 ∧ d.kind = "variable" ∧ d.complexity = 2 ∧
        d.dependencies.names = ["g", "x"] ∧
          d.complexity ≤ c.complexity ∧ ∀ name ∈ d.dependencies, name ∈ c.dependencies := by
  have houter : ∃ c ∈ chunksAt 1 guardedCall [0], c.kind = "function" ∧ c.complexity = 3 := by
    decide +kernel
  have hinner : ∃ d ∈ chunksAt 1 guardedCall [0, 2, 0, 1, 0], d.kind = "variable" ∧
      d.complexity = 2 ∧ d.dependencies.names = ["g", "x"] := by
    decide +kernel
  obtain ⟨c, hc, hkind, hcomplexity⟩ := houter
  obtain ⟨d, hd, hkind', hcomplexity', hnames⟩ := hinner
  have hstems : StemsFrom 1 guardedCall [0] c := ⟨c, hc, rfl⟩
  have hstems' : StemsFrom 1 guardedCall [0, 2, 0, 1, 0] d := ⟨d, hd, rfl⟩
  obtain ⟨hless, hsubset⟩ := (nested_within.2 1 guardedCall).2 _ _ c d hstems hstems' (by decide)
    (by rw [hkind]; decide) (by rw [hkind']; decide)
  exact ⟨c, d, hstems, hstems', hkind, hcomplexity, hkind', hcomplexity', hnames, hless, hsubset⟩

end Chunk

end CodeSearch
