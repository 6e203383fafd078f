import CodeSearch.Json.Printer
import CodeSearch.Text.NameSet

/-!
Chunks: the pieces of code that are indexed and found.

A chunk is one declaration with its place, its text, the lines around it and the names it depends
on. The embedding is added later; a chunk without one, or with an empty one, is found by its words
alone.
-/
set_option autoImplicit false

namespace CodeSearch

open CodeSearch.Text (NameSet)

/-- The vector that stands for a text. -/
abbrev Embedding := List Float

/-- A declaration as it is indexed. -/
structure Chunk where
  id : String
  /-- The kind of the declaration. Extraction gives one of `Chunk.kinds`. -/
  kind : String
  name : String
  text : String
  /-- The file, by its path below the indexed directory. -/
  path : String
  /-- The line on which it begins, counted from one. -/
  line : Int
  /-- The lines around its first line. -/
  context : String
  dependencies : NameSet := NameSet.empty
  complexity : Int := 1
  embedding : Option Embedding := none

namespace Chunk

/-- The kinds of declarations, in the order in which they are listed. -/
def kinds : List String := ["function", "class", "interface", "import", "variable"]

/-- The kind whose complexity is reported. -/
def functionKind : String := "function"

/-- Whether an embedding counts: it is there and not empty. -/
def isEmbedded (c : Chunk) : Bool :=
  match c.embedding with
  | some (_ :: _) => true
  | _ => false

/-- The text that stands for a chunk: what is embedded, and what is stored beside the embedding. -/
def canonicalText (c : Chunk) : String :=
  "\n".intercalate [
    "Type: " ++ c.kind,
    "Name: " ++ c.name,
    "File: " ++ c.path,
    "Content: " ++ c.text,
    "Context: " ++ c.context,
    "Dependencies: " ++ ", ".intercalate c.dependencies.names]

end Chunk

/-- What a vector store keeps of a chunk. -/
structure Entry where
  id : String
  embedding : Option Embedding
  /-- Named columns besides the text and the embedding. -/
  columns : List (String × Value)
  document : String

/-- The entry of a chunk. Its dependencies are one column, as the JSON text of their list. -/
def Entry.ofChunk (c : Chunk) : Entry where
  id := c.id
  embedding := c.embedding
  columns := [
    ("kind", .text c.kind),
    ("name", .text c.name),
    ("file_path", .text c.path),
    ("line", .int c.line),
    ("dependencies", .text (Json.render (.list (c.dependencies.names.map .text))))]
  document := c.canonicalText

end CodeSearch
