import CodeSearch.Value.Basic

/-!
Requests to services over HTTP, and what comes of them.

The exchange itself happens outside of the library. Here is what is sent, what can come back, and
the one way in which an answer becomes data: a failed connection comes before a bad status, and a
bad status before a bad body.
-/
set_option autoImplicit false

namespace CodeSearch.Service

/-- What is sent: a body of data with its headers, and how many seconds the answer may take. -/
structure Request where
  url : String
  headers : List (String × String)
  body : Value
  timeout : Value

/-- The body of an answer. -/
inductive Body where
  | data (v : Value)
  /-- It is not data; why not. -/
  | malformed (reason : String)

/-- What comes back. -/
inductive Reply where
  /-- Nothing; why not. -/
  | unreachable (reason : String)
  | answer (status : Int) (body : Body)

/-- Why a reply brings no data. -/
inductive Problem where
  | unreachable (reason : String)
  | status (code : Int)
  | malformed (reason : String)

/-- The wording of a cause. -/
def Problem.message : Problem → String
  | .unreachable reason => reason
  | .status code => s!"{code} error"
  | .malformed reason => reason

/-- The data of a reply. -/
def Reply.data : Reply → Except Problem Value
  | .unreachable reason => .error (.unreachable reason)
  | .answer status body =>
    if 400 ≤ status then .error (.status status)
    else
      match body with
      | .data v => .ok v
      | .malformed reason => .error (.malformed reason)

/-- Sending a request changes the world outside, of which `σ` is the part that matters. -/
abbrev Exchange (σ : Type) := Request → σ → Reply × σ

end CodeSearch.Service
