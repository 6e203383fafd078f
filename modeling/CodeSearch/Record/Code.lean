import CodeSearch.Analysis
import CodeSearch.Record.Basic
import CodeSearch.Search.Query
import CodeSearch.Search.Ranking
import CodeSearch.Search.Result
import CodeSearch.Summary

/-!
Records of code: syntax trees, chunks, and what is said about them.

The record of a node is a list: its type, where it starts and stops, flags, the field under which
its parent holds it, and its children. Of the flags, "a" stands for a token without a name, "m"
for a node that is missing, and "e" for one with a fault.
-/
set_option autoImplicit false

namespace CodeSearch.Record

open CodeSearch.Text (NameSet)
open CodeSearch.Tree (Node Skipped)

/-! ## Trees -/

/-- A node made of the parts of its record, and its children. -/
def node (parts : List Value) (children : List Node) : Node :=
  let part (place : Nat) : Value := (parts[place]?).getD .null
  let flags := text (part 3)
  { type := text (part 0)
    start := (whole (part 1)).toNat
    stop := (whole (part 2)).toNat
    named := !flags.contains 'a'
    missing := flags.contains 'm'
    flagged := flags.contains 'e'
    field := text (part 4)
    children := children }

mutual

/-- The node of a record. -/
def toNode : Value → Node
  | .list (type :: start :: stop :: flags :: name :: .list children :: _) =>
    node [type, start, stop, flags, name] (toNodes children)
  | .list parts => node parts []
  | _ => default

/-- The nodes of some records. -/
def toNodes : List Value → List Node
  | [] => []
  | child :: rest => toNode child :: toNodes rest

end

/-! ## Chunks -/

/-- The chunk of a record. Without an id it has that of its place. -/
def toChunk (v : Value) : Chunk :=
  let path := textAt v "file_path" "f.js"
  let line := wholeAt v "line" 1
  let name := textAt v "name"
  { id := textAt v "id" s!"{path}:{line}:{name}"
    kind := textAt v "kind" Chunk.functionKind
    name := name
    text := textAt v "source_text"
    path := path
    line := line
    context := textAt v "context_window"
    dependencies := NameSet.ofList (textsAt v "dependencies")
    complexity := wholeAt v "complexity" 1
    embedding := vectorAt? v "embedding" }

/-- The chunks of a field. -/
def chunksAt (v : Value) (key : String) : List Chunk :=
  (itemsAt v key).map toChunk

/-- The record of a chunk; the embedding is in it only if there is one. -/
def ofChunk (c : Chunk) : Value :=
  .table <| [
    ("id", .text c.id),
    ("kind", .text c.kind),
    ("name", .text c.name),
    ("source_text", .text c.text),
    ("file_path", .text c.path),
    ("line", .int c.line),
    ("context_window", .text c.context),
    ("dependencies", ofTexts c.dependencies.names),
    ("complexity", .int c.complexity)] ++
    match c.embedding with
    | some v => [("embedding", ofVector v)]
    | none => []

/-- The records of some chunks. -/
def ofChunks (chunks : List Chunk) : Value := .list (chunks.map ofChunk)

/-- The record of an entry. -/
def ofEntry (e : Entry) : Value :=
  .table [
    ("id", .text e.id),
    ("embedding", ofOption ofVector e.embedding),
    ("metadata", .table e.columns),
    ("document", .text e.document)]

/-- The entry of a record. -/
def toEntry (v : Value) : Entry where
  id := textAt v "id"
  embedding := vectorAt? v "embedding"
  columns := entriesAt v "metadata"
  document := textAt v "document"

/-- The record of a file that could not be used. -/
def ofSkipped (s : Skipped) : Value :=
  .table [("failure", .text s.path), ("reason", .text s.reason)]

/-! ## What is said about chunks -/

/-- The summary of a record. -/
def toSummary (v : Value) : Summary where
  path := textAt v "path"
  generation := countAt v "generation"
  files := countAt v "file_count"
  chunks := countAt v "chunk_count"
  embedded := countAt v "embedded_count"
  backend := if textAt v "backend_mode" == "vector" then .vector else .lexical
  skipped := (itemsAt v "failures").map fun f => ⟨text (item f 0), text (item f 1)⟩
  discarded := flagAt v "discarded"

/-- The record of a summary. -/
def ofSummary (s : Summary) : Value :=
  .table [
    ("path", .text s.path),
    ("generation", ofNat s.generation),
    ("file_count", ofNat s.files),
    ("chunk_count", ofNat s.chunks),
    ("embedded_count", ofNat s.embedded),
    ("backend_mode", .text s.backend.name),
    ("failed_files", ofTexts (s.skipped.map (·.path))),
    ("discarded", .bool s.discarded),
    ("coverage", .float s.coverage),
    ("failures", .list (s.skipped.map ofSkipped))]

/-- The record of the counts of chunks. -/
def ofPatterns (p : Analysis.Patterns) : Value :=
  .table [
    ("kind_counts", ofCounts p.kinds),
    ("complexity_histogram", ofCounts p.histogram),
    ("high_complexity", ofNat p.complex)]

/-- The record of a graph of names. -/
def ofGraph (graph : List (String × NameSet)) : Value :=
  .table (graph.map fun entry => (entry.1, ofTexts entry.2.names))

/-- The record of a report on embeddings. -/
def ofReport (r : Analysis.EmbeddingReport) : Value :=
  .table [
    ("total_chunks", ofNat r.total),
    ("embedded_chunks", ofNat r.embedded),
    ("kind_counts", ofCounts r.kinds),
    ("coverage", .float r.coverage)]

/-! ## Questions and answers -/

/-- The threshold that a value gives. -/
def toThreshold : Value → Search.Threshold
  | .float x => .real x
  | v => .whole (whole v)

/-- A field that gives a threshold. -/
def thresholdAt? (v : Value) (key : String) : Option Search.Threshold :=
  (given? v key).map toThreshold

/-- The question of a record. -/
def toQuery (v : Value) : Search.Query where
  text := textAt? v "text"
  threshold := (thresholdAt? v "threshold").getD (.real 0.7)
  limit := wholeAt v "limit" 10
  kind := textAt? v "kind"

/-- The record of some matches: pairs of an id and a similarity. -/
def ofMatches (found : List Search.Match) : Value :=
  .list (found.map fun m => .list [m.id, .float m.similarity])

/-- The answer of a record. -/
def toResult (v : Value) : Search.Result where
  chunk := toChunk ((field? v "chunk").getD .null)
  similarity := realAt v "similarity" 0.0
  context := textAt v "context"
  backend := .lexical

/-- The record of an answer; its chunk is in it by its id. -/
def ofResult (r : Search.Result) : Value :=
  .table [
    ("id", .text r.chunk.id),
    ("similarity", .float r.similarity),
    ("context", .text r.context),
    ("backend", .text r.backend.name)]

end CodeSearch.Record
