import CodeSearch.Search.Lexical
import CodeSearch.Summary
import CodeSearch.Vector.Index

/-!
Generations: complete indexes, each made by one build and never changed.
-/
set_option autoImplicit false

namespace CodeSearch.Index

/-- One complete index. -/
structure Generation where
  /-- The number of the build that made it. -/
  number : Int
  root : String := ""
  files : Nat := 0
  chunks : List Chunk
  lexical : Search.Lexical
  vector : Option Vector.VectorIndex := none
  skipped : List Tree.Skipped := []

namespace Generation

/-- How questions to it are answered, as long as the store of vectors serves. -/
def backend (g : Generation) : Backend :=
  if g.vector.isSome then .vector else .lexical

/-- How many of its chunks are embedded. -/
def embedded (g : Generation) : Nat :=
  g.chunks.countP (·.isEmbedded)

/-- The chunk with an id; of several the last one. -/
def chunk? (g : Generation) (id : String) : Option Chunk :=
  g.chunks.reverse.find? fun c => c.id == id

/-- The chunk that a value names: only text can name one, and a list or a table cannot be looked
for. -/
def chunkNamed (g : Generation) (id : Value) : Except Fault (Option Chunk) :=
  match id with
  | .text s => .ok (g.chunk? s)
  | .list _ | .table _ => .error (.unhashable id.kind)
  | _ => .ok none

end Generation

end CodeSearch.Index
