import CodeSearch.Cut
import CodeSearch.Text.Lines

/-!
The lines around a line.
-/
set_option autoImplicit false

namespace CodeSearch

/-- The lines from `radius` above a line, counted from one, to `radius` below it, as far as the text
reaches. -/
def contextWindow (lines : List String) (line radius : Int) : String :=
  Text.joinLines <|
    Cut.between (max 0 (line - radius - 1)) (min lines.length (line + radius)) lines

end CodeSearch
