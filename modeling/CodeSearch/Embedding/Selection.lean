import CodeSearch.Embedding.Hash
import CodeSearch.Embedding.Remote
import CodeSearch.Text.Lower

/-!
Which embedder a choice means.
-/
set_option autoImplicit false

namespace CodeSearch.Embedding

open CodeSearch.Service

/-- The embedders that there are. -/
inductive Selection where
  | hash (dimension : Int)
  | remote (service : Remote)

/-- Why a choice gives no embedder. -/
inductive Objection where
  | noKey
  | unknownProvider (name : String)

/-- The wording of a cause. -/
def Objection.message : Objection → String
  | .noKey =>
    "OpenAI embeddings selected but no API key is set; continuing in lexical-only mode."
  | .unknownProvider name =>
    s!"Unknown embedding provider '{name}'; continuing in lexical-only mode."

/-- The embedder of a choice: none if no provider is chosen. -/
def select (c : Choice) : Except Objection (Option Selection) :=
  let provider := Text.lower c.provider
  if !c.isMade then .ok none
  else if provider == "hash" then .ok (some (.hash c.dimension))
  else if provider == "openai" then
    if c.apiKey.isEmpty then .error .noKey
    else
      .ok (some (.remote (Remote.new c.apiKey (orElse c.model remoteModel) c.endpoint (.float 30.0))))
  else .error (.unknownProvider provider)

/-- What is selected, as an embedder. -/
def Selection.embedder {σ : Type} (exchange : Exchange σ) : Selection → Embedder σ
  | .hash dimension => hashEmbedder dimension
  | .remote service => service.embedder exchange

end CodeSearch.Embedding
