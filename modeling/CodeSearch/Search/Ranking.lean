import CodeSearch.Value.Basic

/-!
Answers in the order of their similarity.

The order is stable: of two answers with the same similarity the one that was found first comes
first.
-/
set_option autoImplicit false

namespace CodeSearch.Search

/-- The answers, the most similar first. -/
def bestFirst {α : Type} (similarity : α → Float) (found : List α) : List α :=
  found.mergeSort fun a b => !(similarity a < similarity b)

/-- A chunk, by its id, with its similarity to a question. The id is as the store gives it, and
need not be that of a chunk. -/
structure Match where
  id : Value
  similarity : Float

end CodeSearch.Search
