import CodeSearch.Value.Fault

/-!
Embeddings: a text becomes a vector, or it cannot be embedded.

An embedder may refuse a text, which the rest of the library is prepared for, or break in a way
that it is not prepared for.
-/
set_option autoImplicit false

namespace CodeSearch.Embedding

/-- Why a text was not embedded. -/
inductive Failure where
  /-- There is no embedder at all. -/
  | notConfigured
  /-- The text has no words to count. -/
  | noTokens
  | requestFailed (reason : String)
  | unexpectedResponse (reason : String)
  | emptyEmbedding
  /-- An embedder from outside refused the text. -/
  | refused (reason : String)

/-- The wording of a cause. -/
def Failure.message : Failure → String
  | .notConfigured => "no embedding capability configured"
  | .noTokens => "text has no tokens to embed"
  | .requestFailed reason => "OpenAI embeddings request failed: " ++ reason
  | .unexpectedResponse reason => "Unexpected OpenAI embeddings response: " ++ reason
  | .emptyEmbedding => "OpenAI returned an empty embedding"
  | .refused reason => reason

/-- How asking for an embedding ends. -/
inductive Outcome where
  | vector (v : List Float)
  | failure (reason : Failure)
  /-- The embedder broke. -/
  | crash (fault : Fault)

/-- An embedder: its key, by which its vectors are told from those of others, the number of
components, and what it does with a text. Asking changes the world outside, of which `σ` is the
part that matters. -/
structure Embedder (σ : Type) where
  key : String
  dimension : Int
  embed : String → σ → Outcome × σ

end CodeSearch.Embedding
