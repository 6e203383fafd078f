/-!
What the node types of each grammar mean.

A grammar's table says which types declare something, which fields bind a name, which nodes add a
branch, and how calls and members are spelled. Everything that is specific to one language stands
here; the rest of the library reads the tables.
-/
set_option autoImplicit false

namespace CodeSearch.Tree

/-- The meaning of the node types of one language. -/
structure Grammar where
  /-- Functions that always have a name of their own. -/
  functions : List String
  /-- Functions that take their name from what they are assigned to. -/
  anonymousFunctions : List String
  classes : List String
  interfaces : List String
  imports : List String
  bindings : List String
  /-- Nodes at which control can go two ways. -/
  branches : List String
  /-- The nodes of binary operators, and the operators that may leave out their second operand. -/
  logical : String
  logicalOperators : List String
  call : String
  /-- Nodes that pick a member, with the field that holds its name. -/
  members : List (String × String)
  identifiers : List String
  /-- Nodes that lend a name to an anonymous function, with the field that holds the name. -/
  naming : List (String × String)
  /-- Nodes with the fields under which an identifier is bound and not read. -/
  bindingFields : List (String × List String)
  /-- Nodes under which every identifier is bound. -/
  binding : List String
  /-- The scopes in which a variable counts; none means all. -/
  variableScopes : List String

namespace Grammar

/-- The grammar of JavaScript. -/
def javascript : Grammar where
  functions := ["function_declaration", "generator_function_declaration"]
  anonymousFunctions := ["function_expression", "generator_function", "arrow_function"]
  classes := ["class_declaration"]
  interfaces := []
  imports := ["import_statement"]
  bindings := ["lexical_declaration", "variable_declaration"]
  branches := [
    "if_statement", "while_statement", "do_statement", "for_statement", "for_in_statement",
    "switch_case", "catch_clause", "ternary_expression"]
  logical := "binary_expression"
  logicalOperators := ["&&", "||"]
  call := "call_expression"
  members := [("member_expression", "property")]
  identifiers := ["identifier", "shorthand_property_identifier"]
  naming := [("variable_declarator", "name"), ("assignment_expression", "left")]
  bindingFields := [
    ("function_declaration", ["name"]),
    ("generator_function_declaration", ["name"]),
    ("function_expression", ["name"]),
    ("generator_function", ["name"]),
    ("class_declaration", ["name"]),
    ("class", ["name"]),
    ("abstract_class_declaration", ["name"]),
    ("variable_declarator", ["name"]),
    ("arrow_function", ["parameter"]),
    ("catch_clause", ["parameter"]),
    ("for_in_statement", ["left"]),
    ("assignment_pattern", ["left"]),
    ("pair_pattern", ["value"]),
    ("required_parameter", ["pattern"]),
    ("optional_parameter", ["pattern"]),
    ("labeled_statement", ["label"]),
    ("break_statement", ["label"]),
    ("continue_statement", ["label"])]
  binding := [
    "formal_parameters", "array_pattern", "rest_pattern", "object_pattern", "import_clause",
    "namespace_import", "import_specifier"]
  variableScopes := []

/-- The grammar of TypeScript: that of JavaScript with interfaces and abstract classes. -/
def typescript : Grammar :=
  { javascript with
    classes := ["class_declaration", "abstract_class_declaration"]
    interfaces := ["interface_declaration"] }

/-- The grammar of Python. -/
def python : Grammar where
  functions := ["function_definition"]
  anonymousFunctions := ["lambda"]
  classes := ["class_definition"]
  interfaces := []
  imports := ["import_statement", "import_from_statement"]
  bindings := ["assignment"]
  branches := [
    "if_statement", "elif_clause", "while_statement", "for_statement", "except_clause", "case_clause",
    "conditional_expression"]
  logical := "boolean_operator"
  logicalOperators := ["and", "or"]
  call := "call"
  members := [("attribute", "attribute")]
  identifiers := ["identifier"]
  naming := [("assignment", "left")]
  bindingFields := [
    ("function_definition", ["name"]),
    ("class_definition", ["name"]),
    ("assignment", ["left"]),
    ("for_statement", ["left"]),
    ("for_in_clause", ["left"]),
    ("keyword_argument", ["name"]),
    ("attribute", ["attribute"]),
    ("default_parameter", ["name"]),
    ("typed_default_parameter", ["name"]),
    ("aliased_import", ["alias"]),
    ("named_expression", ["name"])]
  binding := [
    "parameters", "lambda_parameters", "typed_parameter", "list_splat_pattern",
    "dictionary_splat_pattern", "dotted_name", "pattern_list", "tuple_pattern", "list_pattern",
    "as_pattern_target", "global_statement", "nonlocal_statement"]
  variableScopes := ["module", "class_definition"]

/-- The fields under which a node of the given type binds an identifier. -/
def bindingFieldsOf (g : Grammar) (type : String) : List String :=
  (g.bindingFields.lookup type).getD []

end Grammar

end CodeSearch.Tree
