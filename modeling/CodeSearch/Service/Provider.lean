/-!
How an outside capability is chosen.

A choice names a provider and what it needs. The words for no provider are exact; the name of a
provider may be in capitals. A service has a usual model, taken when none is named.
-/
set_option autoImplicit false

namespace CodeSearch.Service

/-- The two capabilities that a provider can be chosen for. -/
inductive Capability where
  | embeddings
  | explanations
deriving DecidableEq, Repr

/-- The choice of a provider: its name, the model, the key, the address, and how many components a
vector has if words are counted. -/
structure Choice where
  provider : String := "none"
  model : String := ""
  apiKey : String := ""
  endpoint : String := ""
  dimension : Int := 256
deriving DecidableEq, Repr

/-- Whether a provider is chosen at all. -/
def Choice.isMade (c : Choice) : Bool :=
  c.provider != "" && c.provider != "none"

/-- The usual models of the providers of a capability. -/
def usualModels : Capability → List (String × String)
  | .embeddings => [("openai", "text-embedding-3-small"), ("hash", "hash")]
  | .explanations => [
    ("openai", "gpt-4"), ("anthropic", "claude-3-5-sonnet-20241022"), ("ollama", "qwen2.5-coder:7b")]

/-- The usual model of a provider; empty if there is none. -/
def usualModel (capability : Capability) (provider : String) : String :=
  ((usualModels capability).lookup provider).getD ""

/-- The text, or another one if it is empty. -/
def orElse (text other : String) : String :=
  if text.isEmpty then other else text

end CodeSearch.Service
