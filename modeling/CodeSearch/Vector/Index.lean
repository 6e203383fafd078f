import CodeSearch.Search.Ranking
import CodeSearch.Vector.Store

/-!
An index of chunks by their vectors.

It is one collection of a store. Only chunks with an embedding are in it, and the similarity of a
hit is what its distance leaves of one, kept between zero and one; a distance that is no number
leaves all of it.
-/
set_option autoImplicit false

namespace CodeSearch.Vector

/-- An index: its collection, and how many chunks are in it. -/
structure VectorIndex where
  collection : String
  size : Nat
deriving DecidableEq, Repr

/-- The entries of the chunks that are embedded. -/
def entriesOf (chunks : List Chunk) : List Entry :=
  (chunks.filter (·.isEmbedded)).map Entry.ofChunk

/-- An index over some chunks, with the database that holds it. -/
def VectorIndex.build (db : Database) (collection : String) (chunks : List Chunk) :
    Except StoreFault (VectorIndex × Database) := do
  let entries := entriesOf chunks
  let written ← upsert db collection entries
  return (⟨collection, entries.length⟩, written)

/-- The similarity for a distance. -/
def similarityOf (distance : Float) : Float :=
  let rest := 1.0 - distance
  let capped := if rest < 1.0 then rest else 1.0
  if 0.0 < capped then capped else 0.0

/-- The best matches for a vector up to a limit. -/
def VectorIndex.query (index : VectorIndex) (db : Database) (vector : List Float)
    (kind : Option String) (limit : Int) : Except StoreFault (List Search.Match) × Database :=
  let (hits, asked) := queryStore db index.collection vector limit kind
  (hits.map fun found =>
    Search.bestFirst Search.Match.similarity <|
      found.map fun hit => ⟨hit.id, similarityOf hit.distance⟩, asked)

end CodeSearch.Vector
