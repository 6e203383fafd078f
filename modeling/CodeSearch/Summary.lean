import CodeSearch.Analysis
import CodeSearch.Tree.Parsing

/-!
What a build of an index came to.
-/
set_option autoImplicit false

namespace CodeSearch

/-- How questions are answered: by the vectors of a store, or by words. -/
inductive Backend where
  | vector
  | lexical
deriving DecidableEq, Repr

/-- The name of a way of answering. -/
def Backend.name : Backend → String
  | .vector => "vector"
  | .lexical => "lexical"

/-- The numbers of a build. -/
structure Summary where
  path : String
  generation : Nat
  files : Nat
  chunks : Nat
  embedded : Nat
  backend : Backend
  skipped : List Tree.Skipped := []
  /-- Whether a later build was begun before this one ended, so that its index is not used. -/
  discarded : Bool := false

/-- The share of the embedded chunks. -/
def Summary.coverage (s : Summary) : Float :=
  Analysis.coverage s.embedded s.chunks

end CodeSearch
