import CodeSearch.Chunk.Basic
import CodeSearch.Decimal.Binary

/-!
Views over all chunks of an index at once: how many of each kind, how complex, how many embedded,
and which name depends on which.

Counts are kept by key in the order in which the keys first come. A count is the number of the
chunks with its key, so every view of two lists of chunks put together is made of the views of the
two.
-/
set_option autoImplicit false

namespace CodeSearch.Analysis

open CodeSearch.Text (NameSet)

/-- How often each key comes, in the order in which the keys first come. -/
def tally (keys : List String) : List (String × Nat) :=
  keys.eraseDups.map fun key => (key, keys.count key)

/-- The count of a key; zero for a key that is not counted. -/
def countOf (counts : List (String × Nat)) (key : String) : Nat :=
  (counts.lookup key).getD 0

/-! ## Complexity -/

/-- A function above this is reported as complex. -/
def highComplexity : Int := 10

/-- The ranges of complexity with the least score of each, the highest first. -/
def buckets : List (String × Int) := [
  ("Very High (15+)", 16), ("High (8-15)", 8), ("Medium (4-7)", 4), ("Low (1-3)", 1)]

/-- The range of a score. A score below all ranges is in the lowest one. -/
def bucket (score : Int) : String :=
  match buckets.find? fun range => range.2 ≤ score with
  | some range => range.1
  | none => "Low (1-3)"

/-- The labels of the ranges, the lowest first. -/
def labels : List String := buckets.reverse.map (·.1)

/-- Whether a chunk is reported as complex. -/
def isComplex (c : Chunk) : Bool :=
  c.kind == Chunk.functionKind && highComplexity < c.complexity

/-- Counts by kind and by complexity. -/
structure Patterns where
  kinds : List (String × Nat)
  histogram : List (String × Nat)
  complex : Nat

/-- The counts of some chunks. -/
def patterns (chunks : List Chunk) : Patterns where
  kinds := tally (chunks.map (·.kind))
  histogram :=
    let scores := chunks.map fun c => bucket c.complexity
    labels.map fun label => (label, scores.count label)
  complex := chunks.countP isComplex

/-- The counts as text. -/
def Patterns.text (p : Patterns) : String :=
  let row (label key : String) : String := s!"  {label}: {countOf p.kinds key}"
  "\n".intercalate <| [
    "Code structure:",
    row "Functions" "function",
    row "Classes" "class",
    row "Interfaces" "interface",
    row "Imports" "import",
    row "Variables" "variable",
    s!"  High complexity functions: {p.complex}",
    "",
    "Complexity distribution:"] ++ p.histogram.map fun range => s!"  {range.1}: {range.2}"

/-! ## Dependencies -/

/-- The dependencies of all chunks of a name together. -/
def needsOf (chunks : List Chunk) (name : String) : NameSet :=
  (chunks.filter fun c => c.name == name).foldr (fun c found => c.dependencies.union found)
    NameSet.empty

/-- The names of the chunks, in the order in which they first come, with what each depends on. -/
def dependencyGraph (chunks : List Chunk) : List (String × NameSet) :=
  (chunks.map (·.name)).eraseDups.map fun name => (name, needsOf chunks name)

/-! ## Embeddings -/

/-- The share of a part in a whole; none of nothing is zero. -/
def coverage (part whole : Nat) : Float :=
  if whole = 0 then 0 else Decimal.ratio part whole

/-- How many chunks there are, how many of them are embedded, and the latter by kind. -/
structure EmbeddingReport where
  total : Nat
  embedded : Nat
  kinds : List (String × Nat)

/-- The report on some chunks. -/
def embeddingReport (chunks : List Chunk) : EmbeddingReport :=
  let found := chunks.filter (·.isEmbedded)
  ⟨chunks.length, found.length, tally (found.map (·.kind))⟩

/-- The share of the embedded chunks. -/
def EmbeddingReport.coverage (r : EmbeddingReport) : Float :=
  Analysis.coverage r.embedded r.total

/-! ## Names -/

/-- The chunks of a name, and of a kind if one is asked for. -/
def findSymbol (chunks : List Chunk) (name : String) (kind : Option String) : List Chunk :=
  chunks.filter fun c => c.name == name && kind.all (· == c.kind)

end CodeSearch.Analysis
