import CodeSearch.Embedding.Hash

/-!
How alike two vectors are in direction.
-/
set_option autoImplicit false

namespace CodeSearch.Vector

open CodeSearch.Embedding (norm leastNorm)

/-- The sum of the products of the components. -/
def dot (a b : List Float) : Float :=
  (List.zipWith (· * ·) a b).foldl (· + ·) 0.0

/-- The cosine of the angle between two vectors; zero if one has no components or no length, or if
they differ in the number of components. -/
def cosine (a b : List Float) : Float :=
  if a.isEmpty || b.isEmpty || a.length != b.length then 0.0
  else if norm a < leastNorm || norm b < leastNorm then 0.0
  else dot a b / (norm a * norm b)

end CodeSearch.Vector
