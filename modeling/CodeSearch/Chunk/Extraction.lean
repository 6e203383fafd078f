import CodeSearch.Chunk.Basic
import CodeSearch.Chunk.Context
import CodeSearch.Tree.Complexity
import CodeSearch.Tree.Declaration
import CodeSearch.Tree.Parsing
import CodeSearch.Tree.Reference

/-!
From a syntax tree to chunks.

Every node that declares something gives a chunk for each name it declares, in the order of the
walk over the tree. A chunk is first given the place and name as its id; of several with the same
one the second, third and so on get their number behind it.
-/
set_option autoImplicit false

namespace CodeSearch

open CodeSearch.Text (Source NameSet)
open CodeSearch.Tree

namespace Chunk

/-- What a declaration gives: kind, name and dependencies of each chunk. An import depends on the
modules it names, everything else on the names that are read in it. -/
def parts (g : Grammar) (source : Source) (o : Occurrence) (declared : Declaration) :
    List (String × String × NameSet) :=
  match declared with
  | .function name => [("function", name, Tree.dependencies g source o)]
  | .classType name => [("class", name, Tree.dependencies g source o)]
  | .interface name => [("interface", name, Tree.dependencies g source o)]
  | .imports modules => [("import", importName modules, NameSet.ofList modules)]
  | .bindings names =>
    let needed := Tree.dependencies g source o
    names.map fun name => ("variable", name, needed)

/-- The id of a chunk that no other chunk of its file shares place and name with. -/
def baseId (path : String) (line : Nat) (name : String) : String :=
  s!"{path}:{line}:{name}"

/-- The chunks of one node, with the base of their ids. -/
def ofNode (file : Parsed) (lines : List String) (radius : Int) (o : Occurrence) : List Chunk :=
  let g := file.language.grammar
  match declaration? g file.source o with
  | none => []
  | some declared =>
    let line := lineOf file.source o.node
    let text := textOf file.source o.node
    let context := contextWindow lines line radius
    let score := Tree.complexity g o.node
    (parts g file.source o declared).map fun (kind, name, needed) => {
      id := baseId file.path line name
      kind := kind
      name := name
      text := text
      path := file.path
      line := line
      context := context
      dependencies := needed
      complexity := score }

/-- The id for a base, given the bases before it. -/
def numberedId (earlier : List String) (base : String) : String :=
  match earlier.count base with
  | 0 => base
  | n => s!"{base}#{n + 1}"

/-- The chunks with their ids, given the bases before them. -/
def withIds (earlier : List String) : List Chunk → List Chunk
  | [] => []
  | c :: rest => { c with id := numberedId earlier c.id } :: withIds (c.id :: earlier) rest

/-- The chunks of a file. -/
def ofParsed (radius : Int) (file : Parsed) : List Chunk :=
  let lines := file.source.lines
  withIds [] ((Occurrence.ofRoot file.root).nodes.flatMap (ofNode file lines radius))

end Chunk

end CodeSearch
