import CodeSearch.Service.Http

/-!
Exchanges by a script: replies that were written down beforehand are given one after the other,
and the requests are kept. Past the end of the script nothing answers.
-/
set_option autoImplicit false

namespace CodeSearch.Service

/-- The replies that are left, and the requests so far. -/
structure Script where
  replies : List Reply
  requests : List Request := []

/-- The reply past the end of a script. -/
def Script.ended : Reply := .unreachable "no scripted response"

/-- The exchange that a script gives. -/
def Script.exchange : Exchange Script := fun request s =>
  let sent := s.requests ++ [request]
  match s.replies with
  | [] => (ended, ⟨[], sent⟩)
  | reply :: rest => (reply, ⟨rest, sent⟩)

/-- The script with no requests so far. -/
def Script.anew (s : Script) : Script := { s with requests := [] }

end CodeSearch.Service
