/-!
What happens beside the results: warnings, and pauses between attempts.

Operations hand their notices back in the order in which they came up.
-/
set_option autoImplicit false

namespace CodeSearch

/-- One thing that happened. -/
inductive Notice where
  | warning (text : String)
  /-- A pause of so many seconds. -/
  | pause (seconds : Float)

/-- The text of a warning. -/
def Notice.warning? : Notice → Option String
  | .warning text => some text
  | .pause _ => none

/-- The length of a pause. -/
def Notice.pause? : Notice → Option Float
  | .warning _ => none
  | .pause seconds => some seconds

end CodeSearch
