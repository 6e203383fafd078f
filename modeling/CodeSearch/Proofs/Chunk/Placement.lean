import CodeSearch.Chunk.Extraction
import CodeSearch.Proofs.Text.Encoding
import CodeSearch.Proofs.Text.Lines

/-!
Where a chunk stands in its file.

A node covers octets, a chunk has a text, a line and the lines around it. What ties them together
is a cut of the text of the file into the parts before, inside and behind the node (`StandsAt`),
which is there whenever the span of the node begins and ends between characters. Reading the octets
of the span gives the part inside. The line feeds among the octets before it are those of the part
before, so the line with their number goes on with the part inside, and the lines around a line have
it among them.
-/
set_option autoImplicit false

namespace CodeSearch

namespace Text.Source

variable {s : Source} {start stop : Nat} {part : List Char}

/-! ## Parts of a source -/

/-- A place among the octets that is not inside a character. -/
def IsBoundary (s : Source) (place : Nat) : Prop :=
  ∃ before, before <+: s.text ∧ (encode before).length = place

instance (s : Source) (place : Nat) : Decidable (s.IsBoundary place) :=
  decidable_of_iff (∃ before ∈ s.text.inits, (encode before).length = place) <| by
    simp only [List.mem_inits, IsBoundary]

/-- The part of the text that begins and ends at two places among the octets. -/
def StandsAt (s : Source) (start stop : Nat) (part : List Char) : Prop :=
  ∃ before behind, s.text = before ++ part ++ behind ∧
    (encode before).length = start ∧ (encode (before ++ part)).length = stop

theorem exists_standsAt (hstart : s.IsBoundary start) (hstop : s.IsBoundary stop)
    (hle : start ≤ stop) : ∃ part, s.StandsAt start stop part := by
  obtain ⟨before, hbefore, rfl⟩ := hstart
  obtain ⟨upTo, hupTo, rfl⟩ := hstop
  -- of two front parts of the text, the one with fewer octets begins the other
  have hwithin : before <+: upTo := by
    rcases List.prefix_or_prefix_of_prefix hbefore hupTo with h | ⟨more, hmore⟩
    · exact h
    · rw [← hmore, encode_append, List.length_append] at hle
      have hnone : more = [] := by
        cases more with
        | nil => rfl
        | cons c more =>
          obtain ⟨b, bs, hoctets, -⟩ := readStep_encodeChar c
          rw [encode_cons, hoctets, List.cons_append, List.length_cons] at hle
          omega
      rw [← hmore, hnone, List.append_nil]
  obtain ⟨part, rfl⟩ := hwithin
  obtain ⟨behind, hbehind⟩ := hupTo
  exact ⟨part, before, behind, hbehind.symm, rfl, rfl⟩

/-- Between two places that are not inside characters there is the text that stands there. -/
theorem slice_of_standsAt (hpart : s.StandsAt start stop part) :
    s.slice start stop = String.ofList part := by
  obtain ⟨before, behind, htext, rfl, rfl⟩ := hpart
  have hoctets : encode s.text = encode before ++ encode part ++ encode behind := by
    rw [htext, encode_append, encode_append]
  rw [slice, Array.toList_extract, s.octets_eq, hoctets, List.extract_eq_take_drop, encode_append,
    List.length_append, Nat.add_sub_cancel_left, List.append_assoc, List.drop_left, List.take_left,
    decodeLenient_encode]

theorem rowAt_of_within {before : List Char} (hbefore : before <+: s.text) :
    s.rowAt (encode before).length = before.count '\n' := by
  obtain ⟨behind, hbehind⟩ := hbefore
  have hoctets : encode s.text = encode before ++ encode behind := by
    rw [← hbehind, encode_append]
  rw [rowAt, ← Array.count_toList, Array.toList_extract, s.octets_eq, hoctets,
    List.extract_eq_take_drop, List.drop_zero, Nat.sub_zero, List.take_left, count_encode]

/-- The line on which a part of the text begins has the first line of the part in it. -/
theorem exists_line_of_standsAt (hpart : s.StandsAt start stop part) :
    ∃ line, s.lines[s.rowAt start]? = some line ∧ firstLine part <:+: line.toList := by
  obtain ⟨before, behind, htext, rfl, -⟩ := hpart
  obtain ⟨front, hfront⟩ := getElem?_linesOf_append before (part ++ behind)
  rw [← List.append_assoc, ← htext] at hfront
  have hbefore : before <+: s.text := ⟨part ++ behind, by rw [htext, List.append_assoc]⟩
  refine ⟨String.ofList (front ++ firstLine (part ++ behind)), ?_, ?_⟩
  · rw [rowAt_of_within hbefore, lines, List.getElem?_map, hfront, Option.map_some]
  · rw [String.toList_ofList]
    exact (firstLine_prefix_append part behind).isInfix.trans (List.suffix_append _ _).isInfix

theorem not_mem_of_mem_lines {line : String} (hline : line ∈ s.lines) : '\n' ∉ line.toList := by
  obtain ⟨cs, hcs, rfl⟩ := List.mem_map.mp hline
  rw [String.toList_ofList]
  exact not_mem_of_mem_linesOf hcs

end Text.Source

/-! ## The lines around a line -/

/-- The part of a list between two places has what stands at a place between them. -/
theorem Cut.mem_between {α : Type} {xs : List α} {x : α} {k : Nat} {start stop : Int}
    (hx : xs[k]? = some x) (hzero : 0 ≤ start) (hstart : start ≤ k) (hstop : k < stop) :
    x ∈ Cut.between start stop xs := by
  have hk : k < xs.length := (List.getElem?_eq_some_iff.mp hx).1
  have hfrom : Cut.place xs.length start ≤ k := by
    rw [Cut.place, if_neg (by omega)]
    omega
  have hupTo : k < Cut.place xs.length stop := by
    rw [Cut.place, if_neg (by omega)]
    omega
  refine List.mem_of_getElem? (i := k - Cut.place xs.length start) ?_
  rw [Cut.between, List.getElem?_drop, Nat.add_sub_cancel' hfrom, List.getElem?_take_of_lt hupTo, hx]

theorem Cut.mem_of_mem_between {α : Type} {xs : List α} {x : α} {start stop : Int}
    (hx : x ∈ Cut.between start stop xs) : x ∈ xs :=
  List.mem_of_mem_take (List.mem_of_mem_drop hx)

/-- The lines around a line have the line among them. -/
theorem mem_lines_contextWindow {lines : List String} {line : String} {k : Nat} {radius : Int}
    (hlines : ∀ l ∈ lines, '\n' ∉ l.toList) (hline : lines[k]? = some line) (hradius : 0 ≤ radius) :
    line ∈ Text.lines (contextWindow lines (k + 1) radius) := by
  have hk : k < lines.length := (List.getElem?_eq_some_iff.mp hline).1
  have hmem : line ∈ Cut.between (max 0 ((k : Int) + 1 - radius - 1))
      (min lines.length ((k : Int) + 1 + radius)) lines :=
    Cut.mem_between hline (by omega) (by omega) (by omega)
  rw [contextWindow, Text.lines_joinLines (List.ne_nil_of_mem hmem)]
  · exact hmem
  · intro l hl
    exact hlines l (Cut.mem_of_mem_between hl)

/-! ## Chunks -/

/-- A node whose span begins and ends between characters. -/
structure Tree.Node.OnCharacters (s : Text.Source) (n : Tree.Node) : Prop where
  start : s.IsBoundary n.start
  stop : s.IsBoundary n.stop
  le : n.start ≤ n.stop

instance (s : Text.Source) (n : Tree.Node) : Decidable (n.OnCharacters s) :=
  decidable_of_iff (s.IsBoundary n.start ∧ s.IsBoundary n.stop ∧ n.start ≤ n.stop)
    ⟨fun ⟨hstart, hstop, hle⟩ => ⟨hstart, hstop, hle⟩, fun h => ⟨h.start, h.stop, h.le⟩⟩

namespace Chunk

open CodeSearch.Text (Source encode)
open CodeSearch.Tree (Parsed Occurrence)

variable {file : Parsed} {lines : List String} {radius : Int} {o : Occurrence} {c : Chunk}

/-- Only the id of a chunk is changed when it is counted. -/
theorem exists_of_mem_withIds {earlier : List String} {cs : List Chunk}
    (hc : c ∈ withIds earlier cs) : ∃ bare ∈ cs, c = { bare with id := c.id } := by
  induction cs generalizing earlier with
  | nil => exact absurd hc List.not_mem_nil
  | cons first rest ih =>
    rw [withIds, List.mem_cons] at hc
    rcases hc with rfl | hc
    · exact ⟨first, List.mem_cons_self, rfl⟩
    · obtain ⟨bare, hbare, heq⟩ := ih hc
      exact ⟨bare, List.mem_cons_of_mem first hbare, heq⟩

/-- What every chunk of a node takes from the node. -/
theorem eq_of_mem_ofNode (hc : c ∈ ofNode file lines radius o) :
    c.text = Tree.textOf file.source o.node ∧ c.line = Tree.lineOf file.source o.node ∧
      c.context = contextWindow lines (Tree.lineOf file.source o.node) radius := by
  unfold ofNode at hc
  dsimp only at hc
  split at hc
  · exact absurd hc List.not_mem_nil
  · obtain ⟨part, -, rfl⟩ := List.mem_map.mp hc
    exact ⟨rfl, rfl, rfl⟩

/-- Every chunk of a file whose tree cuts no character has the text between the two ends of its
node; its line is a line of the file, which has the first line of the text in it and stands in the
context of the chunk. -/
theorem placed_of_mem_ofParsed
    (hspans : ∀ o ∈ (Occurrence.ofRoot file.root).nodes, o.node.OnCharacters file.source)
    (hc : c ∈ ofParsed radius file) :
    1 ≤ c.line ∧ c.line ≤ file.source.lines.length ∧
      (∃ o ∈ (Occurrence.ofRoot file.root).nodes,
        (∃ bare ∈ ofNode file file.source.lines radius o, c = { bare with id := c.id }) ∧
        ∃ before inside behind, file.source.text = before ++ inside ++ behind ∧
          (encode before).length = o.node.start ∧
          (encode (before ++ inside)).length = o.node.stop ∧ c.text = String.ofList inside) ∧
      ∃ line first, file.source.lines[(c.line - 1).toNat]? = some line ∧
        (Text.lines c.text).head? = some first ∧ first.toList <:+: line.toList ∧
        (0 ≤ radius → line ∈ Text.lines c.context) := by
  obtain ⟨bare, hbare, heq⟩ := exists_of_mem_withIds hc
  obtain ⟨o, ho, hnode⟩ := List.mem_flatMap.mp hbare
  obtain ⟨htext, hplace, hcontext⟩ := eq_of_mem_ofNode hnode
  obtain ⟨hstart, hstop, hle⟩ := hspans o ho
  obtain ⟨part, hpart⟩ := Source.exists_standsAt hstart hstop hle
  obtain ⟨line, hline, hfirst⟩ := Source.exists_line_of_standsAt hpart
  have hrow : file.source.rowAt o.node.start < file.source.lines.length :=
    (List.getElem?_eq_some_iff.mp hline).1
  have hlineEq : c.line = ((file.source.rowAt o.node.start : Nat) : Int) + 1 := by
    rw [heq, hplace]
    rfl
  have htextEq : c.text = String.ofList part := by
    rw [heq, htext]
    exact Source.slice_of_standsAt hpart
  obtain ⟨before, behind, hcut, hfrom, hupTo⟩ := hpart
  refine ⟨by omega, by omega, ⟨o, ho, ⟨bare, hnode, heq⟩, before, part, behind, hcut, hfrom, hupTo,
    htextEq⟩, line, String.ofList (Text.firstLine part), ?_, ?_, ?_, ?_⟩
  · rw [hlineEq, Int.add_sub_cancel, Int.toNat_natCast, hline]
  · rw [htextEq, Text.lines, String.toList_ofList, List.head?_map, Text.head?_linesOf,
      Option.map_some]
  · rw [String.toList_ofList]
    exact hfirst
  · intro hradius
    rw [heq, hcontext]
    exact mem_lines_contextWindow (fun l hl => Source.not_mem_of_mem_lines hl) hline hradius

/-- A function whose name has two octets, below a line that has another such character. -/
def umlautFile : Parsed where
  path := "a.py"
  language := .python
  source := .ofText "# é\ndef ü(): 1\n".toList
  root := ⟨"module", 0, 17, true, false, false, "", [
    ⟨"comment", 0, 4, true, false, false, "", []⟩,
    ⟨"function_definition", 5, 16, true, false, false, "", [
      ⟨"identifier", 9, 11, true, false, false, "name", []⟩]⟩]⟩

theorem placed_of_mem_ofParsed_umlaut :
    ∃ c ∈ ofParsed 1 umlautFile, c.line = 2 ∧ c.text = "def ü(): 1" ∧
      c.context = "# é\ndef ü(): 1\n" ∧
      (∃ o ∈ (Occurrence.ofRoot umlautFile.root).nodes,
        (∃ bare ∈ ofNode umlautFile umlautFile.source.lines 1 o, c = { bare with id := c.id }) ∧
        ∃ before inside behind, umlautFile.source.text = before ++ inside ++ behind ∧
          (encode before).length = o.node.start ∧
          (encode (before ++ inside)).length = o.node.stop ∧ c.text = String.ofList inside) ∧
      ∃ line first, umlautFile.source.lines[(c.line - 1).toNat]? = some line ∧
        (Text.lines c.text).head? = some first ∧ first.toList <:+: line.toList ∧
        ((0 : Int) ≤ 1 → line ∈ Text.lines c.context) := by
  have hspans : ∀ o ∈ (Occurrence.ofRoot umlautFile.root).nodes,
      o.node.OnCharacters umlautFile.source := by
    decide +kernel
  have hchunk : ∃ c ∈ ofParsed 1 umlautFile, c.line = 2 ∧ c.text = "def ü(): 1" ∧
      c.context = "# é\ndef ü(): 1\n" := by
    decide +kernel
  obtain ⟨c, hc, hline, htext, hcontext⟩ := hchunk
  obtain ⟨-, -, hnode, hfirst⟩ := placed_of_mem_ofParsed hspans hc
  exact ⟨c, hc, hline, htext, hcontext, hnode, hfirst⟩

end Chunk

end CodeSearch
