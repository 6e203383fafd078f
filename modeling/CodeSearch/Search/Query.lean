import CodeSearch.Chunk.Basic
import CodeSearch.Text.Blank

/-!
Questions to an index.

A threshold may be given as a whole number or as a floating-point one; the two are compared alike,
but a message shows what was given.
-/
set_option autoImplicit false

namespace CodeSearch.Search

/-- A threshold as it was given. -/
inductive Threshold where
  | whole (i : Int)
  | real (x : Float)

namespace Threshold

/-- The value that similarities are compared with. -/
def value : Threshold → Float
  | .whole i => Float.ofInt i
  | .real x => x

/-- The text of a threshold. -/
def text : Threshold → String
  | .whole i => toString i
  | .real x => Decimal.write Decimal.standard x

/-- Whether it lies between zero and one; so of no text that is not a number. -/
def isValid : Threshold → Bool
  | .whole i => 0 ≤ i && i ≤ 1
  | .real x => 0.0 ≤ x && x ≤ 1.0

end Threshold

/-- A question: the text, which may be lacking, the least similarity, how many answers, and which
kind of chunk. -/
structure Query where
  text : Option String
  threshold : Threshold := .real 0.7
  limit : Int := 10
  kind : Option String := none

/-- Why a question is not asked. -/
inductive InvalidQuery where
  | emptyText
  | threshold (given : Threshold)
  | limit (given : Int)
  | kind (given : String)

/-- The wording of a cause. -/
def InvalidQuery.message : InvalidQuery → String
  | .emptyText => "Query text must not be empty."
  | .threshold given => s!"Similarity threshold must be within [0, 1], got {given.text}."
  | .limit given => s!"Result limit must be positive, got {given}."
  | .kind given =>
    s!"Unknown chunk kind '{given}'. Expected one of: " ++ ", ".intercalate Chunk.kinds

/-- What is wrong with a question, if anything; of several things the first. -/
def Query.objection? (q : Query) : Option InvalidQuery :=
  if Text.isAllBlank (q.text.getD "") then some .emptyText
  else if !q.threshold.isValid then some (.threshold q.threshold)
  else if q.limit ≤ 0 then some (.limit q.limit)
  else
    match q.kind with
    | some kind => if Chunk.kinds.contains kind then none else some (.kind kind)
    | none => none

end CodeSearch.Search
