import CodeSearch.Proofs.Tree.Naming
import CodeSearch.Tree.Parsing

/-!
The first fault of a text.

A tree is marked as faulty if some node of it is at fault or flagged for a reason of its own
(`hasError_iff`), so the mark is on every node at fault and on all that is above a mark. A search that
leaves out trees without a mark therefore passes over no fault, and finds the one that the walk over the
whole tree comes to first (`firstFault_eq_find?`). Of a file that is in a known language whose parser can be
loaded, the reason why it is not used names that node, and its tree is used if it has no mark
(`outcome_of_loaded`).
-/
set_option autoImplicit false

namespace CodeSearch.Tree

open CodeSearch.Text (Source)

namespace Node

theorem isFault_iff {n : Node} : n.isFault = true ↔ n.type = "ERROR" ∨ n.missing = true := by
  rw [isFault, Bool.or_eq_true, beq_iff_eq]
  rfl

theorem anyError_eq_true_iff {ns : List Node} :
    anyError ns = true ↔ ∃ n ∈ ns, n.hasError = true := by
  induction ns with
  | nil => simp [anyError]
  | cons n rest ih => simp [anyError, ih]

theorem hasError_eq_true_iff {n : Node} :
    n.hasError = true ↔
      (n.isFault = true ∨ n.flagged = true) ∨ ∃ c ∈ n.children, c.hasError = true := by
  obtain ⟨type, start, stop, named, missing, flagged, field, children⟩ := n
  simp only [hasError, isFault, Bool.or_eq_true, anyError_eq_true_iff]

end Node

/-- A tree is marked as faulty exactly if one of its nodes is at fault or flagged. -/
theorem hasError_iff (o : Occurrence) :
    o.node.hasError = true ↔ ∃ x ∈ o.nodes, x.node.isFault = true ∨ x.node.flagged = true := by
  induction o using Occurrence.induction with
  | step o ih =>
    rw [Node.hasError_eq_true_iff, Occurrence.nodes_eq]
    constructor
    · rintro (hown | ⟨child, hchild, herror⟩)
      · exact ⟨o, List.mem_cons_self, hown⟩
      · rw [← Occurrence.map_node_below] at hchild
        obtain ⟨x, hx, rfl⟩ := List.mem_map.mp hchild
        obtain ⟨y, hy, hbad⟩ := (ih x hx).mp herror
        exact ⟨y, List.mem_cons_of_mem _ (List.mem_flatMap.mpr ⟨x, hx, hy⟩), hbad⟩
    · rintro ⟨y, hy, hbad⟩
      rcases List.mem_cons.mp hy with rfl | hbelow
      · exact Or.inl hbad
      · obtain ⟨x, hx, hmem⟩ := List.mem_flatMap.mp hbelow
        refine Or.inr ⟨x.node, ?_, (ih x hx).mpr ⟨y, hmem, hbad⟩⟩
        rw [← Occurrence.map_node_below]
        exact List.mem_map_of_mem hx

theorem not_isFault_of_not_hasError {o x : Occurrence} (h : o.node.hasError = false)
    (hx : x ∈ o.nodes) : x.node.isFault = false := by
  by_contra hfault
  have hmarked := (hasError_iff o).mpr ⟨x, hx, Or.inl (Bool.not_eq_false _ ▸ hfault)⟩
  rw [h] at hmarked
  cases hmarked

/-! ## The search -/

/-- What a search finds does not change if parts are left out in which there is nothing to find. -/
theorem find?_flatMap_filter {α β : Type} {f : α → List β} {p : β → Bool} {keep : α → Bool}
    {xs : List α} (h : ∀ x ∈ xs, keep x = false → (f x).find? p = none) :
    ((xs.filter keep).flatMap f).find? p = (xs.flatMap f).find? p := by
  induction xs with
  | nil => rfl
  | cons x rest ih =>
    have hrest := ih fun y hy => h y (List.mem_cons_of_mem _ hy)
    by_cases hkeep : keep x = true
    · rw [List.filter_cons_of_pos hkeep, List.flatMap_cons, List.flatMap_cons, List.find?_append,
        List.find?_append, hrest]
    · have hnone := h x List.mem_cons_self (Bool.not_eq_true _ ▸ hkeep)
      rw [List.filter_cons_of_neg hkeep, List.flatMap_cons, List.find?_append, hnone, hrest,
        Option.none_or]

/-- The trees that the search leaves out have no fault in them. -/
theorem find?_preorder_of_not_mayFail {o : Occurrence} (h : mayFail o.node = false) :
    o.preorder.find? (·.node.isFault) = none := by
  have herror : o.node.hasError = false := (Bool.or_eq_false_iff.mp h).1
  rw [List.find?_eq_none, ← Occurrence.nodes_eq_preorder]
  intro x hx
  rw [not_isFault_of_not_hasError herror hx]
  exact Bool.false_ne_true

/-- The search finds the node at fault that the walk over all trees on the stack comes to first. -/
theorem firstFault_eq_find? (stack : List Occurrence) :
    firstFault (stack.map (·.node)) =
      ((stack.flatMap Occurrence.preorder).find? (·.node.isFault)).map (·.node) := by
  -- by the search itself, whose stack holds the nodes only
  generalize hns : stack.map (·.node) = ns
  induction ns using firstFault.induct generalizing stack with
  | case1 =>
    obtain rfl := List.map_eq_nil_iff.mp hns
    rw [firstFault]
    rfl
  | case2 n rest hfault =>
    obtain ⟨o, stack, rfl, rfl, rfl⟩ := List.map_eq_cons_iff.mp hns
    rw [firstFault, if_pos hfault, List.flatMap_cons, Occurrence.preorder_eq, List.cons_append,
      List.find?_cons_of_pos (p := fun x : Occurrence => x.node.isFault) hfault]
    rfl
  | case3 n rest hfault ih =>
    simp only [List.unattach_filter, List.unattach_attach] at ih
    obtain ⟨o, stack, rfl, rfl, rfl⟩ := List.map_eq_cons_iff.mp hns
    have hpruned : ((o.below.filter fun x => mayFail x.node).flatMap Occurrence.preorder).find?
        (·.node.isFault) = (o.below.flatMap Occurrence.preorder).find? (·.node.isFault) :=
      find?_flatMap_filter fun x _ => find?_preorder_of_not_mayFail
    have hstack : (o.below.filter (fun x => mayFail x.node) ++ stack).map (·.node) =
        o.node.children.filter mayFail ++ stack.map (·.node) := by
      rw [List.map_append, ← Occurrence.map_node_below, List.filter_map]
      rfl
    rw [firstFault, if_neg hfault, ih _ hstack, List.flatMap_append, List.flatMap_cons,
      Occurrence.preorder_eq o, List.cons_append,
      List.find?_cons_of_neg (p := fun x : Occurrence => x.node.isFault) hfault,
      List.find?_append, List.find?_append, hpruned]

/-! ## What is said of a fault -/

theorem faultAt_eq (source : Source) (n : Node) :
    faultAt source n =
      (if n.missing = true then s!"missing '{n.type}'" else "syntax error") ++
        s!" at line {source.rowAt n.start + 1}, column {source.columnAt n.start + 1}" := by
  rw [faultAt]
  dsimp only [toString]
  simp only [String.append_assoc]

/-- The wording of a fault begins with what is missing if something is, -/
theorem missing_prefix_faultAt_iff (source : Source) (n : Node) :
    "missing '".toList <+: (faultAt source n).toList ↔ n.missing = true := by
  rw [faultAt_eq, String.toList_append]
  by_cases hmissing : n.missing = true
  · rw [if_pos hmissing]
    refine ⟨fun _ => hmissing, fun _ => List.IsPrefix.trans ?_ (List.prefix_append _ _)⟩
    show "missing '".toList <+: ("missing '" ++ n.type ++ "'").toList
    rw [String.toList_append, String.toList_append, List.append_assoc]
    exact List.prefix_append _ _
  · rw [if_neg hmissing]
    refine ⟨?_, fun h => absurd h hmissing⟩
    rintro ⟨more, hmore⟩
    exact absurd (congrArg List.head? hmore) (by simp)

/-- and says more than that something is wrong. -/
theorem faultAt_ne (source : Source) (n : Node) : faultAt source n ≠ "syntax error" := by
  intro heq
  by_cases hmissing : n.missing = true
  · have hprefix := (missing_prefix_faultAt_iff source n).mpr hmissing
    rw [heq] at hprefix
    exact absurd hprefix (by decide)
  · -- the place of the fault takes up some characters
    rw [faultAt_eq, if_neg hmissing] at heq
    have hlength := congrArg String.length heq
    simp only [toString, String.length_append] at hlength
    have hplace : " at line ".length = 9 := by decide
    omega

theorem describeFault_eq (source : Source) (root : Node) :
    describeFault source root =
      match (Occurrence.ofRoot root).preorder.find? (·.node.isFault) with
      | some x => faultAt source x.node
      | none => "syntax error" := by
  have hsearch := firstFault_eq_find? [Occurrence.ofRoot root]
  rw [List.map_singleton, List.flatMap_singleton] at hsearch
  rw [describeFault]
  change firstFault [root] = _ at hsearch
  rw [hsearch]
  cases (Occurrence.ofRoot root).preorder.find? (·.node.isFault) with
  | none => rfl
  | some x => rfl

/-! ## Files -/

theorem outcome_eq {parsers : Parsers} {path : String} {language : Language} {text : List Char}
    (hlanguage : Language.ofPath? path = some language)
    (hloads : parsers.failure? language.package = none) :
    parsers.outcome path text =
      if (parsers.tree language text).hasError then
        .ok (.error ⟨path, describeFault (Source.ofText text) (parsers.tree language text)⟩)
      else .ok (.ok ⟨path, language, Source.ofText text, parsers.tree language text⟩) := by
  have hobstacle : parsers.obstacle? language = .ok none := by
    rw [Parsers.obstacle?, hloads]
  unfold Parsers.outcome
  rw [hlanguage]
  dsimp only
  rw [hobstacle]

/-- A file in a language whose parser can be loaded is used exactly if its tree is not marked as faulty, and
then no node of it is at fault. Otherwise the reason is the wording of the first node at fault in the walk
over the whole tree, which the search that leaves out trees without a mark agrees with: that it is missing,
exactly if it is, and its line and column. Only if there is no such node, nothing more is said than that
something is wrong. -/
theorem outcome_of_loaded (parsers : Parsers) {path : String} {language : Language}
    (text : List Char) (hlanguage : Language.ofPath? path = some language)
    (hloads : parsers.failure? language.package = none) :
    let source := Source.ofText text
    let root := parsers.tree language text
    let first? := (Occurrence.ofRoot root).preorder.find? fun x =>
      x.node.type == "ERROR" || x.node.missing
    firstFault [root] = first?.map (·.node) ∧
      (root.hasError = true → ∃ reason, parsers.outcome path text = .ok (.error ⟨path, reason⟩) ∧
        (∀ x, first? = some x →
          reason = (if x.node.missing = true then s!"missing '{x.node.type}'" else "syntax error") ++
              s!" at line {source.rowAt x.node.start + 1}, column {source.columnAt x.node.start + 1}" ∧
            ("missing '".toList <+: reason.toList ↔ x.node.missing = true)) ∧
        (reason = "syntax error" ↔ first? = none)) ∧
      (root.hasError = false →
        (∀ x ∈ (Occurrence.ofRoot root).preorder, x.node.type ≠ "ERROR" ∧ x.node.missing = false) ∧
          parsers.outcome path text = .ok (.ok ⟨path, language, source, root⟩)) := by
  intro source root first?
  have hpred : (fun x : Occurrence => x.node.isFault) =
      fun x => x.node.type == "ERROR" || x.node.missing :=
    funext fun _ => rfl
  have hdescribe : describeFault source root =
      match first? with
      | some x => faultAt source x.node
      | none => "syntax error" := by
    rw [describeFault_eq, hpred]
  refine ⟨?_, fun herror => ⟨describeFault source root, ?_, ?_, ?_⟩, fun hclean => ⟨?_, ?_⟩⟩
  · have hsearch := firstFault_eq_find? [Occurrence.ofRoot root]
    rw [List.flatMap_singleton, hpred] at hsearch
    exact hsearch
  · rw [outcome_eq hlanguage hloads, if_pos herror]
  · intro x hx
    rw [hdescribe, hx]
    exact ⟨faultAt_eq source x.node, missing_prefix_faultAt_iff source x.node⟩
  · rw [hdescribe]
    cases first? with
    | none => simp
    | some x => simp [faultAt_ne]
  · intro x hx
    rw [← Occurrence.nodes_eq_preorder] at hx
    have hsound := not_isFault_of_not_hasError hclean hx
    exact ⟨fun htype => by simp [Node.isFault_iff.mpr (Or.inl htype)] at hsound,
      (Bool.or_eq_false_iff.mp hsound).2⟩
  · rw [outcome_eq hlanguage hloads, if_neg (Bool.not_eq_true _ ▸ hclean)]

/-- A call without its closing parenthesis, between a line that is in order and one that is not. -/
def unclosedCall : Node :=
  ⟨"program", 0, 9, true, false, false, "", [
    ⟨"expression_statement", 0, 2, true, false, false, "", [leaf "identifier" 0 1 true ""]⟩,
    ⟨"expression_statement", 3, 7, true, false, false, "", [
      ⟨"call_expression", 3, 6, true, false, false, "", [
        leaf "identifier" 3 4 true "function",
        ⟨"arguments", 4, 6, true, false, false, "arguments", [
          leaf "(" 4 5 false "", leaf "number" 5 6 true "",
          ⟨")", 6, 6, false, true, false, "", []⟩]⟩]⟩]⟩,
    ⟨"ERROR", 8, 9, true, false, false, "", [leaf ")" 8 9 false ""]⟩]⟩

/-- The parenthesis that is missing comes before the one that is in the wrong place. -/
theorem outcome_of_loaded_unclosedCall :
    let parsers : Parsers := ⟨fun _ => none, fun _ _ => unclosedCall⟩
    Language.ofPath? "a.js" = some .javascript ∧
      parsers.failure? Language.javascript.package = none ∧ unclosedCall.hasError = true ∧
        parsers.outcome "a.js" "f;\ng(1;\n)".toList =
          .ok (.error ⟨"a.js", "missing ')' at line 2, column 4"⟩) := by
  intro parsers
  have hlanguage : Language.ofPath? "a.js" = some .javascript := by decide +kernel
  have herror : unclosedCall.hasError = true := by decide
  have hfirst : ((Occurrence.ofRoot unclosedCall).preorder.find? fun x =>
      x.node.type == "ERROR" || x.node.missing).map
        (fun x => (x.node.missing, x.node.type, x.node.start)) = some (true, ")", 6) := by
    decide +kernel
  obtain ⟨x, hx, hfields⟩ := Option.map_eq_some_iff.mp hfirst
  obtain ⟨hmissing, hplace⟩ := Prod.mk.inj hfields
  obtain ⟨htype, hstart⟩ := Prod.mk.inj hplace
  obtain ⟨-, hbroken, -⟩ :=
    outcome_of_loaded parsers "f;\ng(1;\n)".toList hlanguage (rfl : parsers.failure? _ = none)
  obtain ⟨reason, houtcome, hreason, -⟩ := hbroken herror
  refine ⟨hlanguage, rfl, herror, ?_⟩
  have hwords : reason = "missing ')' at line 2, column 4" := by
    rw [(hreason x hx).1, hmissing, htype, hstart]
    decide +kernel
  rw [houtcome, hwords]

end CodeSearch.Tree
