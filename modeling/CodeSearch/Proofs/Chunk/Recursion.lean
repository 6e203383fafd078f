import CodeSearch.Proofs.Chunk.SourceOrder
import CodeSearch.Proofs.Tree.Walk

/-!
The chunks of a file by recursion on its tree.

The walk over a tree keeps the trees still to be walked on a stack, and what it hands out is the recursion
that comes to a node before its children (`Walk.run_ofRoot`). So whatever is gathered along the walk is
gathered by recursion on the tree as well: the names that a piece of code depends on
(`dependencies_eq_gather`), and the chunks of a file up to the numbers in their ids (`ofParsed_eq_gather`).
The recursion goes on below a node that gives chunks, so what is declared inside of a declaration is found,
too, and comes after it (`gathered_by_recursion`).
-/
set_option autoImplicit false

namespace CodeSearch

open CodeSearch.Text (Source NameSet)
open CodeSearch.Tree

namespace Tree

theorem dependencies_eq_gather (g : Grammar) (source : Source) (o : Occurrence) :
    dependencies g source o =
      NameSet.ofList (o.gather fun x => (ownDependency? g source x).toList) := by
  rw [dependencies, List.filterMap_eq_flatMap_toList, Occurrence.flatMap_nodes]

end Tree

namespace Chunk

variable {file : Parsed} {a : Address} {o : Occurrence}

/-- The kind, the name and the dependencies of a chunk. -/
def spec (c : Chunk) : String × String × NameSet := (c.kind, c.name, c.dependencies)

/-- The kind, the name and the dependencies of each chunk that a node gives. -/
def specs (file : Parsed) (o : Occurrence) : List (String × String × NameSet) :=
  match declaration? file.language.grammar file.source o with
  | none => []
  | some declared => parts file.language.grammar file.source o declared

theorem map_spec_ofNode (file : Parsed) (lines : List String) (radius : Int) (o : Occurrence) :
    (ofNode file lines radius o).map spec = specs file o := by
  unfold ofNode specs
  dsimp only
  cases declaration? file.language.grammar file.source o with
  | none => rfl
  | some declared =>
    dsimp only
    rw [List.map_map]
    exact List.map_id' _

/-- The chunks of a file are those that its tree gives by recursion, with their numbers. -/
theorem ofParsed_eq_gather (radius : Int) (file : Parsed) :
    ofParsed radius file =
      withIds [] ((Occurrence.ofRoot file.root).gather (ofNode file file.source.lines radius)) := by
  rw [ofParsed, Occurrence.flatMap_nodes]

theorem map_spec_withIds (earlier : List String) (cs : List Chunk) :
    (withIds earlier cs).map spec = cs.map spec := by
  have hbare := congrArg (List.map spec) (map_unnumbered_withIds earlier cs)
  rw [List.map_map, List.map_map] at hbare
  exact hbare

theorem map_spec_ofParsed (radius : Int) (file : Parsed) :
    (ofParsed radius file).map spec = (Occurrence.ofRoot file.root).gather (specs file) := by
  rw [ofParsed_eq_gather, map_spec_withIds, Occurrence.map_gather]
  exact congrArg (Occurrence.gather · _) (funext fun o => map_spec_ofNode file _ radius o)

/-- The chunks with the address of a node are those that the node gives. -/
theorem map_spec_filter_placed (radius : Int) (ho : (Occurrence.ofRoot file.root).at? a = some o) :
    ((placed radius file).filter fun m => m.1 = a).map (fun m => spec m.2) = specs file o := by
  obtain ⟨before, block, behind, hplaced, hblock, hbefore, hbehind⟩ := exists_placed_eq_append radius ho
  -- the chunks around those of the node have smaller and greater addresses
  have hnone : before.filter (fun m => m.1 = a) = [] ∧ behind.filter (fun m => m.1 = a) = [] := by
    constructor
    · exact List.filter_eq_nil_iff.mpr fun m hm => by simpa using ne_of_lt (hbefore m hm)
    · exact List.filter_eq_nil_iff.mpr fun m hm => by simpa using ne_of_gt (hbehind m hm)
  have hall : block.filter (fun m => m.1 = a) = block := by
    refine List.filter_eq_self.mpr fun m hm => decide_eq_true ?_
    exact List.mem_singleton.mp (stemsFrom_of_map_unnumberedAt hblock hm).1
  have hspecs := congrArg (List.map fun m : Address × Chunk => spec m.2) hblock
  rw [List.map_map, List.map_map, uncounted, List.flatMap_singleton, List.map_map, chunksAt, ho] at hspecs
  rw [hplaced, List.filter_append, List.filter_append, hnone.1, hnone.2, hall, List.nil_append,
    List.append_nil]
  exact hspecs.trans (map_spec_ofNode file _ radius o)

/-- The walk over a tree hands out one node in every round and ends with its last node; the nodes are all
nodes of the tree, each of them once, in the order of the recursion that comes to a node before its children.
The names that a piece of code depends on and the chunks of a file are gathered by recursion on the tree
accordingly: first what a node gives, then what its children give. So the chunks of every node of a file are
there, whatever stands above it, and come after those of the nodes above. -/
theorem gathered_by_recursion :
    (∀ o : Occurrence,
      (∀ k, (Walk.step^[k] (Walk.ofRoot o)).handedOut = o.preorder.take k ∧
        (Walk.step^[k] (Walk.ofRoot o)).pending.reverse.flatMap Occurrence.preorder =
          o.preorder.drop k ∧
        ((Walk.step^[k] (Walk.ofRoot o)).pending = [] ↔ o.preorder.length ≤ k)) ∧
      o.nodes = o.preorder ∧ o.preorder = o :: o.below.flatMap Occurrence.preorder ∧
      o.nodes.map some = o.node.addresses.map o.at? ∧ o.node.addresses.Nodup ∧
      ∀ a, a ∈ o.node.addresses ↔ ∃ x, o.at? a = some x) ∧
    (∀ (g : Grammar) (source : Source) (o : Occurrence),
      Tree.dependencies g source o =
        NameSet.ofList (o.gather fun x => (ownDependency? g source x).toList)) ∧
    ∀ (radius : Int) (file : Parsed),
      let root := Occurrence.ofRoot file.root
      (∀ o : Occurrence,
        o.gather (specs file) = specs file o ++ o.below.flatMap fun x => x.gather (specs file)) ∧
      (ofParsed radius file).map spec = root.gather (specs file) ∧
      ofParsed radius file = withIds [] (root.gather (ofNode file file.source.lines radius)) ∧
      (placed radius file).map (·.2) = ofParsed radius file ∧
      ∀ a o, root.at? a = some o →
        ((placed radius file).filter fun m => m.1 = a).map (fun m => spec m.2) = specs file o ∧
        o.gather (specs file) <:+: (ofParsed radius file).map spec ∧
        ∀ b x, b ≠ [] → o.at? b = some x →
          (specs file o ++ specs file x).Sublist (o.gather (specs file)) := by
  refine ⟨fun o => ⟨fun k => ?_, Occurrence.nodes_eq_preorder o, Occurrence.preorder_eq o,
    (Occurrence.map_at?_addresses o).symm, (Occurrence.pairwise_addresses o).imp ne_of_lt,
    fun a => Occurrence.mem_addresses_iff⟩, dependencies_eq_gather, fun radius file => ?_⟩
  · rw [Occurrence.length_preorder]
    exact Walk.run_ofRoot o k
  · refine ⟨Occurrence.gather_eq (specs file), map_spec_ofParsed radius file,
      ofParsed_eq_gather radius file, map_snd_placed radius file, fun a o ho => ⟨?_, ?_, ?_⟩⟩
    · exact map_spec_filter_placed radius ho
    · rw [map_spec_ofParsed]
      exact Occurrence.gather_infix_of_at? ho
    · intro b x hb hx
      exact Occurrence.append_sublist_gather hb hx

/-- A function with a class and a variable inside, which lends its name to another function. -/
def functionInside : Parsed where
  path := "a.js"
  language := .javascript
  source := .ofText "function f() \x7b class C \x7b \x7d let a = () => g(); \x7d".toList
  root := ⟨"program", 0, 47, true, false, false, "", [
    ⟨"function_declaration", 0, 47, true, false, false, "", [
      leaf "identifier" 9 10 true "name",
      ⟨"formal_parameters", 10, 12, true, false, false, "parameters", []⟩,
      ⟨"statement_block", 13, 47, true, false, false, "body", [
        ⟨"class_declaration", 15, 26, true, false, false, "", [
          leaf "identifier" 21 22 true "name", ⟨"class_body", 23, 26, true, false, false, "body", []⟩]⟩,
        ⟨"lexical_declaration", 27, 45, true, false, false, "", [
          ⟨"variable_declarator", 31, 44, true, false, false, "", [
            leaf "identifier" 31 32 true "name",
            ⟨"arrow_function", 35, 44, true, false, false, "value", [
              ⟨"formal_parameters", 35, 37, true, false, false, "parameters", []⟩,
              ⟨"call_expression", 41, 44, true, false, false, "body", [
                leaf "identifier" 41 42 true "function",
                ⟨"arguments", 42, 44, true, false, false, "arguments", []⟩]⟩]⟩]⟩]⟩]⟩]⟩]⟩

/-- The inner function comes last, after all that it is inside of. -/
theorem gathered_by_recursion_functionInside :
    let root := Occurrence.ofRoot functionInside.root
    (ofParsed 0 functionInside).map (fun c => (c.kind, c.name)) =
        [("function", "f"), ("class", "C"), ("variable", "a"), ("function", "a")] ∧
      (Walk.step^[15] (Walk.ofRoot root)).pending ≠ [] ∧
      (Walk.step^[16] (Walk.ofRoot root)).pending = [] ∧
      ∃ outer inner, root.at? [0] = some outer ∧ outer.at? [2, 1, 0, 1] = some inner ∧
        (specs functionInside outer).map (fun s => (s.1, s.2.1, s.2.2.names)) =
          [("function", "f", ["g"])] ∧
        (specs functionInside inner).map (fun s => (s.1, s.2.1, s.2.2.names)) =
          [("function", "a", ["g"])] ∧
        (specs functionInside outer ++ specs functionInside inner).Sublist
          ((ofParsed 0 functionInside).map spec) ∧
        ((placed 0 functionInside).filter fun m => m.1 = [0, 2, 1, 0, 1]).map (fun m => spec m.2) =
          specs functionInside inner := by
  intro root
  obtain ⟨hwalk, -, hfile⟩ := gathered_by_recursion
  obtain ⟨-, -, -, -, hnodes⟩ := hfile 0 functionInside
  have houter : ∃ outer, root.at? [0] = some outer ∧
      (specs functionInside outer).map (fun s => (s.1, s.2.1, s.2.2.names)) =
        [("function", "f", ["g"])] :=
    ⟨_, rfl, by decide +kernel⟩
  obtain ⟨outer, hat, hspecs⟩ := houter
  have hinner : ∃ inner, outer.at? [2, 1, 0, 1] = some inner ∧
      (specs functionInside inner).map (fun s => (s.1, s.2.1, s.2.2.names)) =
        [("function", "a", ["g"])] := by
    cases hat
    exact ⟨_, rfl, by decide +kernel⟩
  obtain ⟨inner, hbelow, hspecs'⟩ := hinner
  obtain ⟨-, htogether, hnested⟩ := hnodes [0] outer hat
  have hplace : root.at? [0, 2, 1, 0, 1] = some inner := by
    have hdown := Occurrence.at?_append root [0] [2, 1, 0, 1]
    rw [hat] at hdown
    exact hdown.trans hbelow
  have hlength : root.preorder.length = 16 := by decide +kernel
  have hrounds : ∀ k, (Walk.step^[k] (Walk.ofRoot root)).pending = [] ↔ 16 ≤ k :=
    fun k => hlength ▸ ((hwalk root).1 k).2.2
  refine ⟨by decide +kernel, fun h => absurd ((hrounds 15).mp h) (by decide), (hrounds 16).mpr (by decide),
    outer, inner, hat, hbelow, hspecs, hspecs', ?_, (hnodes _ inner hplace).1⟩
  exact (hnested [2, 1, 0, 1] inner (by decide) hbelow).trans htogether.sublist

end Chunk

end CodeSearch
