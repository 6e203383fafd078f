import CodeSearch.Tree.Language
import CodeSearch.Tree.Reference
import CodeSearch.Proofs.Tree.Address

/-!
A declaration does not read the names that it declares.

Which nodes give a declaration its names, and which nodes read a name, is decided by different tables. A
name inside of a declaration is found at the node itself, at one of its declarators or at its left side
(`namingNodes`), and each of these places has to be one where the other table says that an identifier is
bound. For the tables of the languages this is a finite check (`tables_agree`), which the shapes that the
parsers guarantee are needed for (`Node.WellShaped`). So a declaration depends on a name of its own only if
the name is read somewhere else in it (`names_bound`).
-/
set_option autoImplicit false

namespace CodeSearch.Tree

open CodeSearch.Text (Source NameSet)

/-! ## Going down -/

namespace Occurrence

/-- The first child under a field, in its place. -/
def child? (o : Occurrence) (field : String) : Option Occurrence :=
  o.below.find? fun child => child.node.field == field

theorem map_node_child? (o : Occurrence) (field : String) :
    (o.child? field).map (·.node) = o.node.child? field := by
  rw [child?, below, Node.child?, List.find?_map, Option.map_map]
  exact Option.map_id'

theorem mem_below_of_child? {o x : Occurrence} {field : String} (h : o.child? field = some x) :
    x ∈ o.below :=
  List.mem_of_find?_eq_some h

theorem field_of_child? {o x : Occurrence} {field : String} (h : o.child? field = some x) :
    x.node.field = field := by
  simpa using List.find?_some h

theorem parent?_of_mem_below {o x : Occurrence} (h : x ∈ o.below) : x.parent? = some o.node := by
  obtain ⟨child, -, rfl⟩ := List.mem_map.mp h
  rfl

end Occurrence

/-! ## The nodes that give names -/

/-- The names of a declaration. -/
def Declaration.names : Declaration → List String
  | .function name | .classType name | .interface name => [name]
  | .imports modules => modules
  | .bindings names => names

/-- The nodes that a variable declaration takes its names from: at its declarators, then at its left
side. -/
def targets (g : Grammar) (o : Occurrence) : List Occurrence :=
  let ofDeclarators :=
    (o.below.filter fun child => child.node.named && child.node.type == "variable_declarator").filterMap
      fun child => (child.child? "name").filter fun target => g.identifiers.contains target.node.type
  let ofLeft :=
    match o.child? "left" with
    | none => []
    | some left =>
      if g.identifiers.contains left.node.type then [left]
      else if g.binding.contains left.node.type then
        left.below.filter fun child => child.node.named && g.identifiers.contains child.node.type
      else []
  ofDeclarators ++ ofLeft

/-- Whether the nodes of a type are named by a child of their own, if they are named at all. -/
def namedItself (g : Grammar) (type : String) : Bool :=
  g.functions.contains type || g.anonymousFunctions.contains type || g.interfaces.contains type ||
    g.classes.contains type

theorem namedItself_iff {g : Grammar} {type : String} : namedItself g type = true ↔
    type ∈ g.functions ∨ type ∈ g.anonymousFunctions ∨ type ∈ g.interfaces ∨ type ∈ g.classes := by
  simp [namedItself, or_assoc]

/-- The nodes inside of a declaration that it takes its names from. -/
def namingNodes (g : Grammar) (o : Occurrence) : List Occurrence :=
  if namedItself g o.node.type then (o.child? "name").toList else targets g o

theorem declaredNames_eq (g : Grammar) (source : Source) (o : Occurrence) :
    declaredNames g source o.node = (targets g o).map fun x => textOf source x.node := by
  unfold declaredNames targets
  dsimp only
  rw [List.map_append]
  congr 1
  · rw [List.map_filterMap, Occurrence.below, List.filter_map, List.filterMap_map, Node.namedChildren,
      List.filter_filter]
    congr 1
    · funext child
      have hchild := Occurrence.map_node_child? ⟨child, o.node :: o.ancestors⟩ "name"
      dsimp only [Function.comp_apply] at hchild ⊢
      rw [← hchild]
      cases (⟨child, o.node :: o.ancestors⟩ : Occurrence).child? "name" with
      | none => rfl
      | some target =>
        rw [Option.filter_some, Option.map_some]
        dsimp only
        split <;> rfl
    · exact congrArg (List.filter · o.node.children) (funext fun child => Bool.and_comm _ _)
  · rw [← Occurrence.map_node_child?]
    cases o.child? "left" with
    | none => rfl
    | some left =>
      dsimp only [Option.map_some]
      split
      · rfl
      · split
        · rw [Occurrence.below, List.filter_map, List.map_map, Node.namedChildren, List.filter_filter]
          exact congrArg (List.map (textOf source))
            (congrArg (List.filter · left.node.children) (funext fun child => Bool.and_comm _ _))
        · rfl

/-- A node that is named itself takes its name from one node, if from any. -/
theorem map_namingNodes {g : Grammar} {source : Source} {o : Occurrence}
    (h : namedItself g o.node.type = true) :
    (namingNodes g o).map (fun x => textOf source x.node) =
      ((o.node.child? "name").map (textOf source)).toList := by
  rw [namingNodes, if_pos h, ← Occurrence.map_node_child?]
  cases o.child? "name" with
  | none => rfl
  | some name => rfl

theorem names_of_child? {g : Grammar} {source : Source} {o : Occurrence} {d : Declaration}
    {make : String → Declaration} (hmake : ∀ name, (make name).names = [name])
    (hitself : namedItself g o.node.type = true)
    (hd : (o.node.child? "name").map (fun name => make (textOf source name)) = some d) :
    d.names = (namingNodes g o).map fun x => textOf source x.node := by
  obtain ⟨name, hname, rfl⟩ := Option.map_eq_some_iff.mp hd
  rw [map_namingNodes hitself, hname, hmake]
  rfl

/-- What is declared has its names from the nodes that give names, if it is not an import, and not a
function that takes its name from elsewhere. -/
theorem names_of_declaration? {g : Grammar} {source : Source} {o : Occurrence} {d : Declaration}
    (hd : declaration? g source o = some d) (hother : ∀ modules, d ≠ .imports modules) :
    (namedItself g o.node.type = true ∨ o.node.type ∈ g.bindings) ∧
      (d.names = (namingNodes g o).map (fun x => textOf source x.node) ∨
        namingNodes g o = [] ∧ o.node.type ∈ g.anonymousFunctions) := by
  unfold declaration? at hd
  dsimp only at hd
  split at hd
  · cases hd
  split at hd
  · rename_i hfunction
    have hitself := namedItself_iff.mpr (Or.inl (List.contains_iff_mem.mp hfunction))
    exact ⟨Or.inl hitself, Or.inl (names_of_child? (fun _ => rfl) hitself hd)⟩
  split at hd
  · rename_i hanonymous
    have hmem := List.contains_iff_mem.mp hanonymous
    have hitself := namedItself_iff.mpr (Or.inr (Or.inl hmem))
    obtain rfl := Option.some.inj hd
    refine ⟨Or.inl hitself, ?_⟩
    cases hname : o.child? "name" with
    | none => exact Or.inr ⟨by rw [namingNodes, if_pos hitself, hname]; rfl, hmem⟩
    | some name =>
      have hchild := Occurrence.map_node_child? o "name"
      rw [hname] at hchild
      rw [map_namingNodes hitself, ← hchild]
      refine Or.inl ?_
      rw [Declaration.names, expressionName, ← hchild]
      rfl
  split at hd
  · rename_i hinterface
    have hitself := namedItself_iff.mpr (Or.inr (Or.inr (Or.inl (List.contains_iff_mem.mp hinterface))))
    exact ⟨Or.inl hitself, Or.inl (names_of_child? (fun _ => rfl) hitself hd)⟩
  split at hd
  · rename_i hclass
    have hitself := namedItself_iff.mpr (Or.inr (Or.inr (Or.inr (List.contains_iff_mem.mp hclass))))
    exact ⟨Or.inl hitself, Or.inl (names_of_child? (fun _ => rfl) hitself hd)⟩
  split at hd
  · cases hd
    exact absurd rfl (hother _)
  split at hd
  · rename_i hfunction hanonymous hinterface hclass himport hbinding
    have hnot : ¬ namedItself g o.node.type = true := by
      intro hitself
      rcases namedItself_iff.mp hitself with h | h | h | h
      · exact hfunction (List.contains_iff_mem.mpr h)
      · exact hanonymous (List.contains_iff_mem.mpr h)
      · exact hinterface (List.contains_iff_mem.mpr h)
      · exact hclass (List.contains_iff_mem.mpr h)
    refine ⟨Or.inr (List.contains_iff_mem.mp hbinding), Or.inl ?_⟩
    rw [namingNodes, if_neg hnot, ← declaredNames_eq]
    split at hd
    · cases hd
    split at hd
    · cases hd
    · rename_i names hnone hnames
      obtain rfl := Option.some.inj hd
      rfl
  · cases hd

/-! ## Where names are bound -/

/-- The shapes of nodes that the parsers of a language guarantee, as far as names go. -/
structure Node.WellShaped (language : Language) (n : Node) : Prop where
  /-- An arrow function and a lambda have no names of their own. -/
  nameless : n.type = "arrow_function" ∨ n.type = "lambda" → n.child? "name" = none
  /-- An interface has the name of a type. -/
  typeNamed : n.type = "interface_declaration" →
    ∀ name, n.child? "name" = some name → name.type = "type_identifier"
  /-- Declarations with a keyword have no left side. -/
  leftless : n.type = "lexical_declaration" ∨ n.type = "variable_declaration" →
    n.child? "left" = none
  /-- There are no declarators in Python. -/
  declaratorless : language = .python → n.type ≠ "variable_declarator"

instance (language : Language) (n : Node) : Decidable (n.WellShaped language) :=
  decidable_of_iff
    ((n.type = "arrow_function" ∨ n.type = "lambda" → (n.child? "name").isNone = true) ∧
      (n.type = "interface_declaration" →
        ((n.child? "name").all fun name => name.type == "type_identifier") = true) ∧
      (n.type = "lexical_declaration" ∨ n.type = "variable_declaration" →
        (n.child? "left").isNone = true) ∧
      (language = .python → n.type ≠ "variable_declarator"))
    ⟨fun ⟨hnameless, htypeNamed, hleftless, hdeclaratorless⟩ =>
      ⟨fun h => Option.isNone_iff_eq_none.mp (hnameless h),
        fun h name hname => by simpa [hname] using htypeNamed h,
        fun h => Option.isNone_iff_eq_none.mp (hleftless h), hdeclaratorless⟩,
      fun h => ⟨fun htype => Option.isNone_iff_eq_none.mpr (h.nameless htype),
        fun htype => by
          cases hname : n.child? "name" with
          | none => rfl
          | some name => simpa using h.typeNamed htype name hname,
        fun htype => Option.isNone_iff_eq_none.mpr (h.leftless htype), h.declaratorless⟩⟩

/-- The places that a declaration takes names from are places where identifiers are bound. -/
structure Language.TablesAgree (language : Language) : Prop where
  functions : ∀ type ∈ language.grammar.functions, "name" ∈ language.grammar.bindingFieldsOf type
  anonymousFunctions : ∀ type ∈ language.grammar.anonymousFunctions,
    (type = "arrow_function" ∨ type = "lambda") ∨ "name" ∈ language.grammar.bindingFieldsOf type
  classes : ∀ type ∈ language.grammar.classes, "name" ∈ language.grammar.bindingFieldsOf type
  interfaces : ∀ type ∈ language.grammar.interfaces, type = "interface_declaration"
  bindings : ∀ type ∈ language.grammar.bindings,
    (type = "lexical_declaration" ∨ type = "variable_declaration") ∨
      "left" ∈ language.grammar.bindingFieldsOf type
  declarators : language = .python ∨
    "name" ∈ language.grammar.bindingFieldsOf "variable_declarator"
  typeNames : "type_identifier" ∉ language.grammar.identifiers
  calls : language.grammar.call ∉ language.grammar.identifiers ∧
    language.grammar.call ≠ "type_identifier"

theorem tables_agree (language : Language) : language.TablesAgree := by
  cases language with
  | _ => constructor <;> decide

theorem isReference_of_field {g : Grammar} {x : Occurrence} {parent : Node}
    (hparent : x.parent? = some parent) (hfield : x.node.field ∈ g.bindingFieldsOf parent.type) :
    isReference g x = false := by
  simp [isReference, hparent, hfield]

theorem isReference_of_binding {g : Grammar} {x : Occurrence} {parent : Node}
    (hparent : x.parent? = some parent) (hbinding : parent.type ∈ g.binding) :
    isReference g x = false := by
  simp [isReference, hparent, hbinding]

theorem isReference_of_type {g : Grammar} {x : Occurrence} (htype : x.node.type ∉ g.identifiers) :
    isReference g x = false := by
  simp [isReference, htype]

section

variable {language : Language} {o x : Occurrence}

/-- A name that a node has by itself is bound there. -/
theorem isReference_of_name (hshape : o.node.WellShaped language)
    (hitself : namedItself language.grammar o.node.type = true) (hx : o.child? "name" = some x) :
    isReference language.grammar x = false := by
  have htables := tables_agree language
  have hparent := Occurrence.parent?_of_mem_below (Occurrence.mem_below_of_child? hx)
  have hfield := Occurrence.field_of_child? hx
  have hchild : o.node.child? "name" = some x.node := by
    rw [← Occurrence.map_node_child?, hx, Option.map_some]
  rcases namedItself_iff.mp hitself with hfunction | hanonymous | hinterface | hclass
  · exact isReference_of_field hparent (hfield ▸ htables.functions _ hfunction)
  · rcases htables.anonymousFunctions _ hanonymous with hnameless | hbound
    · rw [hshape.nameless hnameless] at hchild
      cases hchild
    · exact isReference_of_field hparent (hfield ▸ hbound)
  · have htype := hshape.typeNamed (htables.interfaces _ hinterface) _ hchild
    exact isReference_of_type (htype ▸ htables.typeNames)
  · exact isReference_of_field hparent (hfield ▸ htables.classes _ hclass)

/-- A name that a variable declaration gives is bound where it stands, and it stands in the declaration. -/
theorem isReference_of_target (hshape : ∀ y ∈ o.nodes, y.node.WellShaped language)
    (hbinding : o.node.type ∈ language.grammar.bindings) (hx : x ∈ targets language.grammar o) :
    x ∈ o.nodes ∧ isReference language.grammar x = false := by
  have htables := tables_agree language
  have hwithin : ∀ y ∈ o.below, y ∈ o.nodes :=
    fun y hy => Occurrence.mem_nodes_of_mem_below o.self_mem_nodes hy
  rcases List.mem_append.mp hx with hdeclarators | hleft
  · obtain ⟨declarator, hmem, hname⟩ := List.mem_filterMap.mp hdeclarators
    obtain ⟨hbelow, htype⟩ := List.mem_filter.mp hmem
    obtain ⟨hchild, -⟩ := Option.filter_eq_some_iff.mp hname
    have hxbelow := Occurrence.mem_below_of_child? hchild
    have htype := beq_iff_eq.mp (Bool.and_eq_true_iff.mp htype).2
    refine ⟨Occurrence.mem_nodes_of_mem_below (hwithin _ hbelow) hxbelow, ?_⟩
    -- where declarators are not known to bind their names, there are none
    rcases htables.declarators with hpython | hbound
    · exact absurd htype ((hshape _ (hwithin _ hbelow)).declaratorless hpython)
    · refine isReference_of_field (Occurrence.parent?_of_mem_below hxbelow) ?_
      rw [Occurrence.field_of_child? hchild, htype]
      exact hbound
  · cases hchild : o.child? "left" with
    | none =>
      rw [hchild] at hleft
      cases hleft
    | some left =>
      have hbelow := Occurrence.mem_below_of_child? hchild
      have hparent := Occurrence.parent?_of_mem_below hbelow
      rw [hchild] at hleft
      dsimp only at hleft
      split at hleft
      · obtain rfl := List.mem_singleton.mp hleft
        refine ⟨hwithin _ hbelow, ?_⟩
        rcases htables.bindings _ hbinding with hkeyword | hbound
        · have hnone := (hshape o o.self_mem_nodes).leftless hkeyword
          rw [← Occurrence.map_node_child?, hchild] at hnone
          cases hnone
        · exact isReference_of_field hparent (Occurrence.field_of_child? hchild ▸ hbound)
      · split at hleft
        · rename_i hpattern
          obtain ⟨hpart, -⟩ := List.mem_filter.mp hleft
          exact ⟨Occurrence.mem_nodes_of_mem_below (hwithin _ hbelow) hpart,
            isReference_of_binding (Occurrence.parent?_of_mem_below hpart)
              (List.contains_iff_mem.mp hpattern)⟩
        · cases hleft

/-- What a node contributes itself is the name of a call, or a name that it reads. -/
theorem read_of_ownDependency? {g : Grammar} {source : Source} {y : Occurrence} {name : String}
    (h : ownDependency? g source y = some name) :
    (isReference g y = true ∧ textOf source y.node = name) ∨
      (y.node.type = g.call ∧ callee? g source y.node = some name) := by
  unfold ownDependency? at h
  split at h
  · rename_i hcall
    exact Or.inr ⟨by simpa using hcall, (Option.filter_eq_some_iff.mp h).1⟩
  · split at h
    · rename_i hreference
      exact Or.inl ⟨hreference, Option.some.inj h⟩
    · cases h

/-- The nodes inside of a declaration that it takes names from are not read there: they are all the nodes
that its names are from, unless it is a function that takes its name from elsewhere, and none of them is
a reference. So the name of such an identifier is among what the declaration depends on only if another
node in it reads a name with that text or calls by it. -/
theorem names_bound (language : Language) (source : Source)
    (hshape : ∀ y ∈ o.nodes, y.node.WellShaped language) {d : Declaration}
    (hd : declaration? language.grammar source o = some d)
    (hother : ∀ modules, d ≠ .imports modules) :
    (d.names = (namingNodes language.grammar o).map (fun x => textOf source x.node) ∨
        namingNodes language.grammar o = [] ∧ o.node.type ∈ language.grammar.anonymousFunctions) ∧
      ∀ x ∈ namingNodes language.grammar o,
        x ∈ o.nodes ∧ isReference language.grammar x = false ∧
          (x.node.type ∈ language.grammar.identifiers ∨ x.node.type = "type_identifier" →
            textOf source x.node ∈ dependencies language.grammar source o →
            ∃ y ∈ o.nodes, y ≠ x ∧
              ((isReference language.grammar y = true ∧ textOf source y.node = textOf source x.node) ∨
                (y.node.type = language.grammar.call ∧
                  callee? language.grammar source y.node = some (textOf source x.node)))) := by
  obtain ⟨hplace, hnames⟩ := names_of_declaration? hd hother
  refine ⟨hnames, fun x hx => ?_⟩
  have hbound : x ∈ o.nodes ∧ isReference language.grammar x = false := by
    unfold namingNodes at hx
    split at hx
    · rename_i hitself
      have hchild := Option.mem_toList.mp hx
      exact ⟨Occurrence.mem_nodes_of_mem_below o.self_mem_nodes (Occurrence.mem_below_of_child? hchild),
        isReference_of_name (hshape o o.self_mem_nodes) hitself hchild⟩
    · rename_i hnot
      exact isReference_of_target hshape (hplace.resolve_left hnot) hx
  refine ⟨hbound.1, hbound.2, fun hidentifier hdepends => ?_⟩
  obtain ⟨y, hy, hown⟩ := List.mem_filterMap.mp (NameSet.mem_ofList.mp hdepends)
  refine ⟨y, hy, ?_, read_of_ownDependency? hown⟩
  -- the node itself contributes nothing: it is no call, and not a reference
  rintro rfl
  have hcalls := (tables_agree language).calls
  rcases read_of_ownDependency? hown with ⟨hreference, -⟩ | ⟨hcall, -⟩
  · rw [hbound.2] at hreference
    cases hreference
  · rw [hcall] at hidentifier
    exact hidentifier.elim hcalls.1 hcalls.2

end

/-- A leaf of a tree. -/
def leaf (type : String) (start stop : Nat) (named : Bool) (field : String) : Node :=
  ⟨type, start, stop, named, false, false, field, []⟩

/-- The assignment in `a, b = b, 1`. -/
def rotation : Node :=
  ⟨"assignment", 0, 11, true, false, false, "", [
    ⟨"pattern_list", 0, 4, true, false, false, "left",
      [leaf "identifier" 0 1 true "", leaf "," 1 2 false "", leaf "identifier" 3 4 true ""]⟩,
    leaf "=" 5 6 false "",
    ⟨"expression_list", 7, 11, true, false, false, "right",
      [leaf "identifier" 7 8 true "", leaf "," 8 9 false "", leaf "integer" 10 11 true ""]⟩]⟩

/-- The assignment in its place. -/
def rotated : Occurrence :=
  let statement : Node := ⟨"expression_statement", 0, 11, true, false, false, "", [rotation]⟩
  ⟨rotation, [statement, ⟨"module", 0, 11, true, false, false, "", [statement]⟩]⟩

/-- The second name that is assigned is also read, at the right side. -/
theorem names_bound_rotated :
    let source := Source.ofText "a, b = b, 1".toList
    (∀ y ∈ rotated.nodes, y.node.WellShaped .python) ∧
      declaration? .python source rotated = some (.bindings ["a", "b"]) ∧
      ∃ x ∈ namingNodes .python rotated, textOf source x.node = "b" ∧ isReference .python x = false ∧
        ∃ y ∈ rotated.nodes, y ≠ x ∧
          ((isReference .python y = true ∧ textOf source y.node = textOf source x.node) ∨
            (y.node.type = "call" ∧ callee? .python source y.node = some (textOf source x.node))) := by
  intro source
  have hshape : ∀ y ∈ rotated.nodes, y.node.WellShaped .python := by decide +kernel
  have hd : declaration? .python source rotated = some (.bindings ["a", "b"]) := by decide +kernel
  have hx : ∃ x ∈ namingNodes .python rotated, textOf source x.node = "b" ∧
      x.node.type ∈ Grammar.python.identifiers ∧
      textOf source x.node ∈ (dependencies .python source rotated).names := by
    decide +kernel
  obtain ⟨x, hx, htext, hidentifier, hdepends⟩ := hx
  obtain ⟨-, hbound⟩ := names_bound .python source hshape hd (by simp)
  obtain ⟨-, hreference, hread⟩ := hbound x hx
  exact ⟨hshape, hd, x, hx, htext, hreference, hread (Or.inl hidentifier) hdepends⟩

end CodeSearch.Tree
