/-!
Whether the store of vectors may be asked.

Once it has failed it is not asked again, and the first reason stays.
-/
set_option autoImplicit false

namespace CodeSearch.Search

/-- Whether the store may be asked, and why not. -/
structure Monitor where
  available : Bool
  reason : String := ""
deriving DecidableEq, Repr

/-- The warning that the store is given up. -/
def Monitor.warning (reason : String) : String :=
  "Vector backend unavailable, using lexical search from now on: " ++ reason

/-- The store given up, with the warnings to that. A store that is given up already changes
nothing. -/
def Monitor.markDown (m : Monitor) (reason : String) : Monitor × List String :=
  if m.available then (⟨false, reason⟩, [Monitor.warning reason]) else (m, [])

end CodeSearch.Search
