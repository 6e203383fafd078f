import CodeSearch.Embedding.Basic
import CodeSearch.Service.Http
import CodeSearch.Service.Provider
import CodeSearch.Value.Convert

/-!
Embedding by a service.

One request is sent for each text. Whatever goes wrong with the request or with the way to the
vector in the answer means that the text is not embedded; what stands in the place of the vector
is taken apart only after that, so something that is no list of numbers breaks the embedder.
-/
set_option autoImplicit false

namespace CodeSearch.Embedding

open CodeSearch.Service

/-- The address of the service. -/
def remoteUrl : String := "https://api.openai.com/v1/embeddings"

/-- The model that is used when none is named. -/
def remoteModel : String := "text-embedding-3-small"

/-- How many components the vectors of a model have. -/
def remoteDimension (model : String) : Int :=
  ([ ("text-embedding-3-small", 1536), ("text-embedding-3-large", 3072),
    ("text-embedding-ada-002", 1536) ].lookup model).getD 1536

/-- A service that embeds texts. -/
structure Remote where
  apiKey : String
  model : String := remoteModel
  endpoint : String := remoteUrl
  timeout : Value := .float 30.0

/-- A service as it is asked for; without an address the usual one is taken. -/
def Remote.new (apiKey model endpoint : String) (timeout : Value) : Remote :=
  ⟨apiKey, model, orElse endpoint remoteUrl, timeout⟩

/-- The key of a service: its model, without hyphens. -/
def Remote.key (r : Remote) : String :=
  String.ofList (r.model.toList.map fun c => if c = '-' then '_' else c)

/-- The request for a text. -/
def Remote.request (r : Remote) (text : String) : Request where
  url := r.endpoint
  headers := [("Content-Type", "application/json"), ("Authorization", "Bearer " ++ r.apiKey)]
  body := .table [("model", .text r.model), ("input", .text text)]
  timeout := r.timeout

/-- What stands in the place of the vector in an answer. -/
def vectorIn (answer : Value) : Except Fault Value := do
  let rows ← answer.atKey "data"
  let row ← rows.first
  row.atKey "embedding"

/-- The vector that a value stands for. -/
def vectorOf (found : Value) : Outcome :=
  if !found.holds then .failure .emptyEmbedding
  else
    match found.items with
    | .error fault => .crash fault
    | .ok items =>
      match items.mapM Value.toFloat with
      | .ok v => .vector v
      | .error fault => .crash fault

/-- What a reply comes to. -/
def outcomeOf (reply : Reply) : Outcome :=
  match reply.data with
  | .error (.malformed reason) => .failure (.unexpectedResponse reason)
  | .error problem => .failure (.requestFailed problem.message)
  | .ok answer =>
    match vectorIn answer with
    | .error fault => .failure (.unexpectedResponse fault.message)
    | .ok found => vectorOf found

/-- The service as an embedder. -/
def Remote.embedder {σ : Type} (exchange : Exchange σ) (r : Remote) : Embedder σ where
  key := r.key
  dimension := remoteDimension r.model
  embed := fun text world =>
    let (reply, after) := exchange (r.request text) world
    (outcomeOf reply, after)

end CodeSearch.Embedding
