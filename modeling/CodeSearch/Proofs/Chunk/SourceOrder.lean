import Mathlib.Data.List.Flatten
import CodeSearch.Proofs.Chunk.Nesting

/-!
The order of the chunks of a file.

Counting the chunks changes nothing but their ids, so the chunks of a file are those of the nodes at its
addresses, one address after the other (`map_unnumberedAt_placed`), and the order of the addresses is that of
the chunks (`pairwise_placed`). Hence a chunk comes before those inside of it, and the names of one
declaration stand together. That the chunks come in the order in which they begin needs more: what is below
one child has to begin before the next child does, which is so if no siblings overlap (`in_source_order`).
It is not enough that the siblings begin one after the other.
-/
set_option autoImplicit false

namespace CodeSearch

open CodeSearch.Text (Source)
open CodeSearch.Tree

theorem Text.Source.rowAt_le_rowAt (s : Source) {start later : Nat} (h : start ≤ later) :
    s.rowAt start ≤ s.rowAt later := by
  have hrow : ∀ place, s.rowAt place = (s.octets.toList.take place).count 10 := by
    intro place
    rw [Source.rowAt, ← Array.count_toList, Array.toList_extract, List.extract_eq_take_drop,
      List.drop_zero, Nat.sub_zero]
  rw [hrow, hrow]
  exact (List.take_prefix_take_left h).sublist.count_le 10

namespace Tree

variable {g : Grammar} {o : Occurrence}

/-! ## The names of a declaration -/

/-- Nodes that are picked below some of the children, one at most below each, come in the order of the
walk. -/
theorem filterMap_sublist_nodes {pick : Occurrence → Option Occurrence} {children : List Occurrence}
    (hpick : ∀ x y, pick x = some y → y ∈ x.nodes) (hchildren : children.Sublist o.below) :
    (children.filterMap pick).Sublist o.nodes := by
  have heach : ∀ x ∈ children, (pick x).toList.Sublist x.nodes := by
    intro x _
    cases hx : pick x with
    | none => exact List.nil_sublist _
    | some y => exact List.singleton_sublist.mpr (hpick x y hx)
  rw [List.filterMap_eq_flatMap_toList, Occurrence.nodes_eq]
  exact ((List.Sublist.flatMap_right children heach).trans (hchildren.flatMap _)).cons o

theorem sublist_nodes_of_sublist_below {children : List Occurrence}
    (hchildren : children.Sublist o.below) : children.Sublist o.nodes := by
  rw [← List.filterMap_some (l := children)]
  refine filterMap_sublist_nodes ?_ hchildren
  intro x y hxy
  obtain rfl := Option.some.inj hxy
  exact x.self_mem_nodes

theorem nodes_sublist_of_mem_below {x : Occurrence} (hx : x ∈ o.below) : x.nodes.Sublist o.nodes := by
  have heach : x.nodes.Sublist (o.below.flatMap Occurrence.nodes) :=
    List.sublist_flatten_of_mem (List.mem_map_of_mem hx)
  rw [Occurrence.nodes_eq o]
  exact heach.cons o

theorem declarators_sublist_nodes :
    ((o.below.filter fun x => x.node.named && x.node.type == "variable_declarator").filterMap
      fun x => (x.child? "name").filter fun target => g.identifiers.contains target.node.type).Sublist
        o.nodes := by
  refine filterMap_sublist_nodes ?_ List.filter_sublist
  intro x y hy
  have hchild := (Option.filter_eq_some_iff.mp hy).1
  exact Occurrence.mem_nodes_of_mem_below x.self_mem_nodes (Occurrence.mem_below_of_child? hchild)

/-- The names that a declaration has from its declarators, or from its left side, come in the order of the
walk. -/
theorem targets_sublist_nodes
    (hone : o.child? "left" = none ∨ ∀ x ∈ o.below, x.node.type ≠ "variable_declarator") :
    (targets g o).Sublist o.nodes := by
  unfold targets
  dsimp only
  rcases hone with hleft | hdeclarators
  · rw [hleft, List.append_nil]
    exact declarators_sublist_nodes
  · -- all names are from the left side: it is a name, or a pattern with names right below it
    have hnone : (o.below.filter fun x => x.node.named && x.node.type == "variable_declarator") = [] := by
      refine List.filter_eq_nil_iff.mpr fun x hx => ?_
      simp [hdeclarators x hx]
    rw [hnone, List.filterMap_nil, List.nil_append]
    split
    · exact List.nil_sublist _
    · rename_i left hleft
      have hbelow := Occurrence.mem_below_of_child? hleft
      split
      · exact List.singleton_sublist.mpr (Occurrence.mem_nodes_of_mem_below o.self_mem_nodes hbelow)
      · split
        · exact (sublist_nodes_of_sublist_below List.filter_sublist).trans
            (nodes_sublist_of_mem_below hbelow)
        · exact List.nil_sublist _

end Tree

namespace Chunk

variable {radius : Int} {file : Parsed} {a : Address} {c : Chunk} {m : Address × Chunk}

/-! ## Chunks with their addresses -/

/-- The chunks of the nodes at some addresses, before they are counted. -/
def uncounted (radius : Int) (file : Parsed) (addresses : List Address) : List (Address × Chunk) :=
  addresses.flatMap fun a => (chunksAt radius file a).map fun c => (a, c)

/-- The chunks of a file with the addresses of their nodes. -/
def placed (radius : Int) (file : Parsed) : List (Address × Chunk) :=
  ((uncounted radius file file.root.addresses).map (·.1)).zip (ofParsed radius file)

/-- What a chunk is without its number. -/
def unnumbered (c : Chunk) : Chunk := { c with id := "" }

/-- What a chunk is without its number, with its address. -/
def unnumberedAt (m : Address × Chunk) : Address × Chunk := (m.1, unnumbered m.2)

theorem map_unnumbered_withIds (earlier : List String) (cs : List Chunk) :
    (withIds earlier cs).map unnumbered = cs.map unnumbered := by
  induction cs generalizing earlier with
  | nil => rfl
  | cons c rest ih =>
    rw [withIds, List.map_cons, List.map_cons, ih]
    rfl

/-- The walk over a file comes to the chunks in the order of the addresses. -/
theorem map_snd_uncounted (radius : Int) (file : Parsed) :
    (uncounted radius file file.root.addresses).map (·.2) =
      (Occurrence.ofRoot file.root).nodes.flatMap (ofNode file file.source.lines radius) := by
  let chunksOf (found : Option Occurrence) : List Chunk :=
    found.elim [] (ofNode file file.source.lines radius)
  have hat : ∀ a, chunksAt radius file a = chunksOf ((Occurrence.ofRoot file.root).at? a) := by
    intro a
    rw [chunksAt]
    split
    · rename_i hnone
      rw [hnone]
      rfl
    · rename_i o ho
      rw [ho]
      rfl
  have hwalk : file.root.addresses.map (Occurrence.ofRoot file.root).at? =
      (Occurrence.ofRoot file.root).nodes.map some :=
    Occurrence.map_at?_addresses (Occurrence.ofRoot file.root)
  calc (uncounted radius file file.root.addresses).map (·.2)
      = file.root.addresses.flatMap (chunksAt radius file) := by
        rw [uncounted, List.map_flatMap]
        simp only [List.map_map, Function.comp_def, List.map_id']
    _ = (file.root.addresses.map (Occurrence.ofRoot file.root).at?).flatMap chunksOf := by
        rw [List.flatMap_map]
        exact List.flatMap_congr fun a _ => hat a
    _ = (Occurrence.ofRoot file.root).nodes.flatMap (ofNode file file.source.lines radius) := by
        rw [hwalk, List.flatMap_map]
        rfl

theorem map_unnumbered_ofParsed (radius : Int) (file : Parsed) :
    (ofParsed radius file).map unnumbered =
      (uncounted radius file file.root.addresses).map fun m => unnumbered m.2 := by
  rw [ofParsed, map_unnumbered_withIds, ← map_snd_uncounted, List.map_map]
  rfl

/-- The chunks of a file at their addresses are those that the nodes give, up to the numbers. -/
theorem map_unnumberedAt_placed (radius : Int) (file : Parsed) :
    (placed radius file).map unnumberedAt =
      (uncounted radius file file.root.addresses).map unnumberedAt := by
  have hzip := congrArg (((uncounted radius file file.root.addresses).map (·.1)).zip ·)
    (map_unnumbered_ofParsed radius file)
  rw [List.zip_map_right, List.zip_map'] at hzip
  exact hzip

theorem map_snd_placed (radius : Int) (file : Parsed) :
    (placed radius file).map (·.2) = ofParsed radius file := by
  have hlength := congrArg List.length (map_unnumbered_ofParsed radius file)
  rw [List.length_map, List.length_map] at hlength
  exact List.map_snd_zip (by rw [List.length_map, hlength])

theorem map_fst_placed (radius : Int) (file : Parsed) :
    (placed radius file).map (·.1) = (uncounted radius file file.root.addresses).map (·.1) := by
  have hfst := congrArg (List.map Prod.fst) (map_unnumberedAt_placed radius file)
  rw [List.map_map, List.map_map] at hfst
  exact hfst

/-- Chunks that are those of some addresses up to the numbers stem from these addresses. -/
theorem stemsFrom_of_map_unnumberedAt {addresses : List Address} {ms : List (Address × Chunk)}
    (hms : ms.map unnumberedAt = (uncounted radius file addresses).map unnumberedAt) (hm : m ∈ ms) :
    m.1 ∈ addresses ∧ StemsFrom radius file m.1 m.2 := by
  have hmem : unnumberedAt m ∈ (uncounted radius file addresses).map unnumberedAt :=
    hms ▸ List.mem_map_of_mem hm
  obtain ⟨⟨a, bare⟩, hat, heq⟩ := List.mem_map.mp hmem
  obtain ⟨b, hb, hchunk⟩ := List.mem_flatMap.mp hat
  obtain ⟨c, hc, hpair⟩ := List.mem_map.mp hchunk
  obtain ⟨rfl, rfl⟩ := Prod.mk.inj hpair
  obtain ⟨haddress, hbare⟩ := Prod.mk.inj heq
  dsimp only at haddress hbare
  subst haddress
  refine ⟨hb, c, hc, ?_⟩
  have hid := congrArg (fun d : Chunk => { d with id := m.2.id }) hbare
  exact hid.symm

theorem stemsFrom_of_mem_placed (hm : m ∈ placed radius file) : StemsFrom radius file m.1 m.2 :=
  (stemsFrom_of_map_unnumberedAt (map_unnumberedAt_placed radius file) hm).2

/-- What holds of the addresses of a tree in their order holds of those of the chunks. -/
theorem pairwise_placed {R : Address → Address → Prop} (hrefl : ∀ a, R a a)
    (haddresses : file.root.addresses.Pairwise R) :
    (placed radius file).Pairwise fun m m' => R m.1 m'.1 := by
  have huncounted : (uncounted radius file file.root.addresses).Pairwise fun m m' => R m.1 m'.1 := by
    refine List.pairwise_flatMap.mpr ⟨?_, ?_⟩
    · -- the chunks of one node all have its address
      intro a _
      exact List.pairwise_map.mpr (List.pairwise_iff_forall_sublist.mpr fun _ => hrefl a)
    · refine haddresses.imp fun hab => ?_
      intro m hm m' hm'
      obtain ⟨c, -, rfl⟩ := List.mem_map.mp hm
      obtain ⟨d, -, rfl⟩ := List.mem_map.mp hm'
      exact hab
  have hfst : ((placed radius file).map (·.1)).Pairwise R := by
    rw [map_fst_placed]
    exact List.pairwise_map.mpr huncounted
  exact List.pairwise_map.mp hfst

/-- A chunk comes before those whose nodes are inside of its own. -/
theorem lt_of_above {i j : Nat} {m m' : Address × Chunk} (hm : (placed radius file)[i]? = some m)
    (hm' : (placed radius file)[j]? = some m') (habove : m.1.Above m'.1) : i < j := by
  obtain ⟨hi, rfl⟩ := List.getElem?_eq_some_iff.mp hm
  obtain ⟨hj, rfl⟩ := List.getElem?_eq_some_iff.mp hm'
  have hless := habove.lt
  by_contra hji
  -- a chunk that comes later is at no smaller address
  rcases Nat.lt_or_eq_of_le (Nat.le_of_not_lt hji) with hlt | rfl
  · have hsorted : (placed radius file).Pairwise fun m m' => m.1 ≤ m'.1 :=
      pairwise_placed le_refl
        ((Occurrence.pairwise_addresses (Occurrence.ofRoot file.root)).imp le_of_lt)
    exact absurd (List.pairwise_iff_getElem.mp hsorted j i hj hi hlt) (not_le_of_gt hless)
  · exact lt_irrefl _ hless

/-! ## Declarations with several names -/

/-- The names that a node binds are those of its declarators, then those of its left side. -/
theorem names_of_bindings {source : Source} {g : Grammar} {o : Occurrence} {names : List String}
    (hd : declaration? g source o = some (.bindings names)) :
    names = (targets g o).map fun x => textOf source x.node := by
  rw [← declaredNames_eq]
  -- of the kinds of nodes, in the order in which they are told apart, only the last one binds names
  unfold declaration? at hd
  dsimp only at hd
  split at hd
  · cases hd
  split at hd
  · obtain ⟨name, -, hname⟩ := Option.map_eq_some_iff.mp hd
    cases hname
  split at hd
  · cases hd
  split at hd
  · obtain ⟨name, -, hname⟩ := Option.map_eq_some_iff.mp hd
    cases hname
  split at hd
  · obtain ⟨name, -, hname⟩ := Option.map_eq_some_iff.mp hd
    cases hname
  split at hd
  · cases hd
  split at hd
  · split at hd
    · cases hd
    split at hd
    · cases hd
    · cases hd
      rfl
  · cases hd

theorem map_name_ofNode {lines : List String} {o : Occurrence} {names : List String}
    (hd : declaration? file.language.grammar file.source o = some (.bindings names)) :
    (ofNode file lines radius o).map (·.name) = names := by
  unfold ofNode
  dsimp only
  rw [hd]
  dsimp only [parts]
  rw [List.map_map, List.map_map]
  exact List.map_id' names

/-- The chunks of the node at an address stand together among those of the file. -/
theorem exists_placed_eq_append (radius : Int) {o : Occurrence}
    (ho : (Occurrence.ofRoot file.root).at? a = some o) :
    ∃ before block behind, placed radius file = before ++ block ++ behind ∧
      block.map unnumberedAt = (uncounted radius file [a]).map unnumberedAt ∧
      (∀ m ∈ before, m.1 < a) ∧ ∀ m ∈ behind, a < m.1 := by
  -- the address cuts the walk in two, and so it cuts the chunks
  obtain ⟨front, rest, hsplit⟩ := List.append_of_mem (Occurrence.mem_addresses_of_at? ho)
  have hsorted := Occurrence.pairwise_addresses (Occurrence.ofRoot file.root)
  rw [hsplit, List.pairwise_append, List.pairwise_cons] at hsorted
  obtain ⟨-, ⟨hrest, -⟩, hfront⟩ := hsorted
  have huncounted : uncounted radius file file.root.addresses =
      uncounted radius file front ++ (uncounted radius file [a] ++ uncounted radius file rest) := by
    have hroot : file.root.addresses = front ++ ([a] ++ rest) := hsplit
    rw [hroot, uncounted, List.flatMap_append, List.flatMap_append]
    rfl
  have hplaced := map_unnumberedAt_placed radius file
  rw [huncounted, List.map_append, List.map_append, List.map_eq_append_iff] at hplaced
  obtain ⟨before, others, hchunks, hbefore, hothers⟩ := hplaced
  obtain ⟨block, behind, rfl, hblock, hbehind⟩ := List.map_eq_append_iff.mp hothers
  refine ⟨before, block, behind, ?_, hblock, ?_, ?_⟩
  · rw [hchunks, List.append_assoc]
  · intro m hm
    exact hfront m.1 (stemsFrom_of_map_unnumberedAt hbefore hm).1 a List.mem_cons_self
  · intro m hm
    exact hrest m.1 (stemsFrom_of_map_unnumberedAt hbehind hm).1

/-! ## The order of the text -/

theorem line_of_stemsFrom (hc : StemsFrom radius file a c) :
    ∃ o, (Occurrence.ofRoot file.root).at? a = some o ∧ c.line = Tree.lineOf file.source o.node := by
  obtain ⟨bare, hbare, heq⟩ := hc
  obtain ⟨o, ho, hnode⟩ := mem_chunksAt_iff.mp hbare
  refine ⟨o, ho, ?_⟩
  rw [heq]
  exact (eq_of_mem_ofNode hnode).2.1

/-- Whether the node at one address of a file begins no later than the one at another address. -/
def BeginsNoLater (file : Parsed) (a b : Address) : Prop :=
  ∀ o x, (Occurrence.ofRoot file.root).at? a = some o → (Occurrence.ofRoot file.root).at? b = some x →
    o.node.start ≤ x.node.start

/-- Where no siblings overlap, chunks come in the order in which their nodes begin. -/
theorem pairwise_start_placed (radius : Int)
    (hlaid : ∀ o ∈ (Occurrence.ofRoot file.root).nodes, o.node.LaidOut) :
    (placed radius file).Pairwise fun m m' => BeginsNoLater file m.1 m'.1 := by
  refine pairwise_placed (R := BeginsNoLater file) ?_ ?_
  · intro a o x ho hx
    obtain rfl := Option.some.inj (ho.symm.trans hx)
    exact Nat.le_refl _
  · have hnodes : ((Occurrence.ofRoot file.root).nodes.map some).Pairwise
        fun p q => ∀ o x, p = some o → q = some x → o.node.start ≤ x.node.start := by
      refine List.pairwise_map.mpr ((Occurrence.pairwise_start_nodes hlaid).imp fun hle => ?_)
      intro o x ho hx
      rwa [← Option.some.inj ho, ← Option.some.inj hx]
    rw [← Occurrence.map_at?_addresses] at hnodes
    have haddresses := List.pairwise_map.mp hnodes
    exact haddresses

theorem pairwise_line_ofParsed (radius : Int)
    (hlaid : ∀ o ∈ (Occurrence.ofRoot file.root).nodes, o.node.LaidOut) :
    (ofParsed radius file).Pairwise fun c d => c.line ≤ d.line := by
  rw [← map_snd_placed]
  refine List.pairwise_map.mpr ((pairwise_start_placed radius hlaid).imp_of_mem ?_)
  intro m m' hm hm' hstart
  obtain ⟨o, ho, hline⟩ := line_of_stemsFrom (stemsFrom_of_mem_placed hm)
  obtain ⟨x, hx, hline'⟩ := line_of_stemsFrom (stemsFrom_of_mem_placed hm')
  have hrow := file.source.rowAt_le_rowAt (hstart o x ho hx)
  rw [hline, hline', Tree.lineOf, Tree.lineOf, Source.lineAt, Source.lineAt]
  omega

/-- The chunks of a file, each one at the address of its node: one whose node has the node of another one
inside comes before that one, and the names of one declaration give chunks that stand together, in the
order of the declarators or of the left side. Where every node covers its children and these do not
overlap, nodes and lines of the chunks come one after the other. -/
theorem in_source_order (radius : Int) (file : Parsed) :
    (placed radius file).map (·.2) = ofParsed radius file ∧
      (∀ m ∈ placed radius file, StemsFrom radius file m.1 m.2) ∧
      (∀ (i j : Nat) (m m' : Address × Chunk), (placed radius file)[i]? = some m →
        (placed radius file)[j]? = some m' → m.1.Above m'.1 → i < j) ∧
      (∀ a o names, (Occurrence.ofRoot file.root).at? a = some o →
        declaration? file.language.grammar file.source o = some (.bindings names) →
        names = (targets file.language.grammar o).map (fun x => textOf file.source x.node) ∧
          (o.child? "left" = none ∨ (∀ x ∈ o.below, x.node.type ≠ "variable_declarator") →
            (targets file.language.grammar o).Sublist o.nodes) ∧
          ∃ before block behind, placed radius file = before ++ block ++ behind ∧
            block.map (·.2.name) = names ∧ (∀ m ∈ before, m.1 < a) ∧ (∀ m ∈ block, m.1 = a) ∧
              ∀ m ∈ behind, a < m.1) ∧
      ((∀ o ∈ (Occurrence.ofRoot file.root).nodes, o.node.LaidOut) →
        ((placed radius file).Pairwise fun m m' => BeginsNoLater file m.1 m'.1) ∧
        (ofParsed radius file).Pairwise fun c d => c.line ≤ d.line) := by
  refine ⟨map_snd_placed radius file, fun m => stemsFrom_of_mem_placed, fun i j m m' => lt_of_above, ?_,
    fun hlaid => ⟨pairwise_start_placed radius hlaid, pairwise_line_ofParsed radius hlaid⟩⟩
  intro a o names ho hd
  refine ⟨names_of_bindings hd, targets_sublist_nodes, ?_⟩
  obtain ⟨before, block, behind, hplaced, hblock, hbefore, hbehind⟩ := exists_placed_eq_append radius ho
  refine ⟨before, block, behind, hplaced, ?_, hbefore, ?_, hbehind⟩
  · have hnames := congrArg (List.map fun m : Address × Chunk => m.2.name) hblock
    rw [List.map_map, List.map_map, uncounted, List.flatMap_singleton, List.map_map, chunksAt, ho] at hnames
    exact hnames.trans (map_name_ofNode hd)
  · intro m hm
    exact List.mem_singleton.mp (stemsFrom_of_map_unnumberedAt hblock hm).1

/-- A function with a declaration of two variables. -/
def pairInside : Parsed where
  path := "a.js"
  language := .javascript
  source := .ofText "function f() \x7b\n let a = 1, b = 2; \x7d".toList
  root := ⟨"program", 0, 35, true, false, false, "", [
    ⟨"function_declaration", 0, 35, true, false, false, "", [
      leaf "identifier" 9 10 true "name",
      ⟨"formal_parameters", 10, 12, true, false, false, "parameters", []⟩,
      ⟨"statement_block", 13, 35, true, false, false, "body", [
        ⟨"lexical_declaration", 16, 33, true, false, false, "", [
          ⟨"variable_declarator", 20, 25, true, false, false, "",
            [leaf "identifier" 20 21 true "name", leaf "number" 24 25 true "value"]⟩,
          ⟨"variable_declarator", 27, 32, true, false, false, "",
            [leaf "identifier" 27 28 true "name", leaf "number" 31 32 true "value"]⟩]⟩]⟩]⟩]⟩

theorem in_source_order_pairInside :
    (∀ o ∈ (Occurrence.ofRoot pairInside.root).nodes, o.node.LaidOut) ∧
      (∃ f a b, placed 0 pairInside = [f, a, b] ∧ f.1 = [0] ∧ a.1 = [0, 2, 0] ∧ b.1 = [0, 2, 0] ∧
        ∀ i j : Nat, (placed 0 pairInside)[i]? = some f → (placed 0 pairInside)[j]? = some a →
          i < j) ∧
      (∃ before block behind, placed 0 pairInside = before ++ block ++ behind ∧
        block.map (·.2.name) = ["a", "b"] ∧ (∀ m ∈ before, m.1 < [0, 2, 0]) ∧
          (∀ m ∈ block, m.1 = [0, 2, 0]) ∧ ∀ m ∈ behind, [0, 2, 0] < m.1) ∧
      (ofParsed 0 pairInside).Pairwise fun c d => c.line ≤ d.line := by
  have hlaid : ∀ o ∈ (Occurrence.ofRoot pairInside.root).nodes, o.node.LaidOut := by decide +kernel
  have haddresses : (placed 0 pairInside).map (·.1) = [[0], [0, 2, 0], [0, 2, 0]] := by decide +kernel
  obtain ⟨f, rest, hplaced, hf, hrest⟩ := List.map_eq_cons_iff.mp haddresses
  obtain ⟨a, rest, rfl, ha, hrest⟩ := List.map_eq_cons_iff.mp hrest
  obtain ⟨b, rest, rfl, hb, hnil⟩ := List.map_eq_cons_iff.mp hrest
  obtain rfl := List.map_eq_nil_iff.mp hnil
  obtain ⟨-, -, habove, htogether, horder⟩ := in_source_order 0 pairInside
  refine ⟨hlaid, ⟨f, a, b, hplaced, hf, ha, hb, ?_⟩, ?_, (horder hlaid).2⟩
  · intro i j hi hj
    refine habove i j f a hi hj ?_
    rw [hf, ha]
    exact ⟨⟨[2, 0], rfl⟩, by decide⟩
  · have hdeclared : ∃ o, (Occurrence.ofRoot pairInside.root).at? [0, 2, 0] = some o ∧
        declaration? .javascript pairInside.source o = some (.bindings ["a", "b"]) :=
      ⟨_, rfl, by decide +kernel⟩
    obtain ⟨o, ho, hd⟩ := hdeclared
    exact (htogether [0, 2, 0] o _ ho hd).2.2

/-- A function inside of a block that goes on beyond the place at which the next function begins. -/
def overlapping : Parsed where
  path := "o.js"
  language := .javascript
  source := .ofText "\x7b\nfunction b() \x7b\x7d\nfunction c() \x7b\x7d\n\x7d\n".toList
  root := ⟨"program", 0, 36, true, false, false, "", [
    ⟨"statement_block", 0, 35, true, false, false, "", [
      ⟨"function_declaration", 18, 33, true, false, false, "", [leaf "identifier" 27 28 true "name"]⟩]⟩,
    ⟨"function_declaration", 2, 17, true, false, false, "", [leaf "identifier" 11 12 true "name"]⟩]⟩

/-- It is not enough that nodes cover their children and that these begin one after the other. -/
theorem not_in_source_order_overlapping :
    (∀ o ∈ (Occurrence.ofRoot overlapping.root).nodes, o.node.start ≤ o.node.stop ∧
      (∀ child ∈ o.node.children, o.node.start ≤ child.start ∧ child.stop ≤ o.node.stop) ∧
        o.node.children.Pairwise fun c d => c.start ≤ d.start) ∧
      (¬ (placed 0 overlapping).Pairwise fun m m' => BeginsNoLater overlapping m.1 m'.1) ∧
        ¬ (ofParsed 0 overlapping).Pairwise fun c d => c.line ≤ d.line := by
  refine ⟨by decide +kernel, ?_, by decide +kernel⟩
  intro hsorted
  -- the walk comes to the function inside of the block first
  have haddresses : (placed 0 overlapping).map (·.1) = [[0, 0], [1]] := by decide +kernel
  have hfst := List.pairwise_map.mpr hsorted
  rw [haddresses] at hfst
  have hfirst : BeginsNoLater overlapping [0, 0] [1] :=
    List.rel_of_pairwise_cons hfst List.mem_cons_self
  exact absurd (hfirst _ _ rfl rfl) (by decide)

end Chunk

end CodeSearch
