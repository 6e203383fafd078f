import CodeSearch.Service.Http
import CodeSearch.Service.Provider
import CodeSearch.Text.Lower
import CodeSearch.Value.Convert

/-!
Explanations by a language model.

Three services are known; they differ in what is sent and in where the answer stands in what comes
back. An assistant keeps the reason of the last failure, and the reason that is given for a
failure without one of its own is the one kept.
-/
set_option autoImplicit false

namespace CodeSearch.Explain

open CodeSearch.Service

/-- Why there is no explanation. -/
inductive Failure where
  | provider (name reason : String)
  /-- An assistant from outside failed. -/
  | refused (reason : String)

/-- The wording of a cause. -/
def Failure.message : Failure → String
  | .provider name reason => s!"LLM provider '{name}' failed: {reason}"
  | .refused reason => reason

/-- How asking for an explanation ends. The explanation is what stands in the place of the text. -/
inductive Outcome where
  | answer (v : Value)
  | failure (reason : Failure)
  | crash (fault : Fault)

/-- Asking for an explanation changes the world outside, of which `σ` is the part that matters. -/
abbrev Explainer (σ : Type) := String → σ → Outcome × σ

/-- The services. -/
inductive Provider where
  | ollama
  | openai
  | anthropic
deriving DecidableEq, Repr

namespace Provider

/-- The name of a service. -/
def name : Provider → String
  | .ollama => "ollama"
  | .openai => "openai"
  | .anthropic => "anthropic"

/-- The service of a name. -/
def ofName? (name : String) : Option Provider :=
  [Provider.ollama, .openai, .anthropic].find? fun p => p.name == name

/-- The usual address of a service. -/
def url : Provider → String
  | .ollama => "http://localhost:11434/api/generate"
  | .openai => "https://api.openai.com/v1/chat/completions"
  | .anthropic => "https://api.anthropic.com/v1/messages"

/-- Whether a service answers only to those who have a key. -/
def needsKey : Provider → Bool
  | .ollama => false
  | _ => true

end Provider

/-- A provider that is not known. -/
structure UnknownProvider where
  name : String

/-- The wording of that cause. -/
def UnknownProvider.message (u : UnknownProvider) : String :=
  s!"Unknown LLM provider '{u.name}'. Available: ollama, openai, anthropic"

/-- The warning that nothing is explained because the provider is not known. -/
def disabled (u : UnknownProvider) : String :=
  u.message ++ "; explanations disabled."

/-- A service that explains, with the key and the model it is asked with. -/
structure Assistant where
  provider : Provider
  model : String
  apiKey : String
  endpoint : String
deriving DecidableEq, Repr

namespace Assistant

/-- An assistant as it is asked for; without a model or an address the usual one is taken. -/
def new (provider model apiKey endpoint : String) : Except UnknownProvider Assistant :=
  let name := Text.lower provider
  match Provider.ofName? name with
  | none => .error ⟨name⟩
  | some known => .ok {
      provider := known
      model := orElse model (usualModel .explanations name)
      apiKey := apiKey
      endpoint := orElse endpoint known.url }

/-- The assistant of a choice: none if no provider is chosen. -/
def ofChoice (c : Choice) : Except UnknownProvider (Option Assistant) :=
  if !c.isMade then .ok none else (new c.provider c.model c.apiKey c.endpoint).map some

/-- How random an answer may be. -/
def temperature : Value := .float 0.1

/-- The question as one message of a conversation. -/
def conversation (prompt : String) : Value :=
  .list [.table [("role", .text "user"), ("content", .text prompt)]]

/-- The request for a question. -/
def request (a : Assistant) (prompt : String) : Request :=
  let json := ("Content-Type", "application/json")
  match a.provider with
  | .ollama => {
      url := a.endpoint
      headers := [json]
      body := .table [
        ("model", .text a.model), ("prompt", .text prompt), ("stream", .bool false),
        ("options", .table [("temperature", temperature)])]
      timeout := .int 60 }
  | .openai => {
      url := a.endpoint
      headers := [json, ("Authorization", "Bearer " ++ a.apiKey)]
      body := .table [
        ("model", .text a.model), ("messages", conversation prompt),
        ("temperature", temperature), ("max_tokens", .int 1024)]
      timeout := .int 30 }
  | .anthropic => {
      url := a.endpoint
      headers := [json, ("x-api-key", a.apiKey), ("anthropic-version", "2023-06-01")]
      body := .table [
        ("model", .text a.model), ("messages", conversation prompt),
        ("max_tokens", .int 1024), ("temperature", temperature)]
      timeout := .int 30 }

/-- What stands in the place of the text in an answer. -/
def textIn (provider : Provider) (answer : Value) : Except Fault Value :=
  match provider with
  | .ollama => answer.getD "response" .null
  | .openai => do
    let choices ← answer.atKey "choices"
    let choice ← choices.first
    let message ← choice.atKey "message"
    message.atKey "content"
  | .anthropic => do
    let parts ← answer.atKey "content"
    let part ← parts.first
    part.atKey "text"

/-- What an attempt to get a text comes to. -/
inductive Attempt where
  /-- What was found; null if nothing came. -/
  | found (v : Value)
  /-- Nothing was found, for this reason. -/
  | nothing (reason : String)
  | crash (fault : Fault)

/-- What an answer comes to. -/
def attemptOf (provider : Provider) (reply : Reply) : Attempt :=
  match reply.data with
  | .error problem => .nothing problem.message
  | .ok .null => .found .null
  | .ok answer =>
    match textIn provider answer with
    | .ok v => .found v
    | .error fault =>
      if provider.needsKey then .nothing "unexpected response shape" else .crash fault

/-- One attempt. Without a key nothing is sent to a service that needs one. -/
def attempt {σ : Type} (exchange : Exchange σ) (a : Assistant) (prompt : String) (world : σ) :
    Attempt × σ :=
  if a.provider.needsKey && a.apiKey.isEmpty then (.nothing "no API key configured", world)
  else
    let (reply, after) := exchange (a.request prompt) world
    (attemptOf a.provider reply, after)

/-- The failure for the reason that is kept. -/
def failureFor (a : Assistant) (kept : String) : Failure :=
  .provider a.provider.name (orElse kept "empty response")

/-- What an attempt means, given the reason kept, and the reason kept afterwards. -/
def conclude (a : Assistant) (kept : String) : Attempt → Outcome × String
  | .found v => (if v.holds then .answer v else .failure (a.failureFor kept), kept)
  | .nothing reason => (.failure (a.failureFor reason), reason)
  | .crash fault => (.crash fault, kept)

/-- The explanation for a question. The state is the reason of the last failure with the world
outside. -/
def explain {σ : Type} (exchange : Exchange σ) (a : Assistant) : Explainer (String × σ) :=
  fun prompt (kept, world) =>
    let (tried, after) := a.attempt exchange prompt world
    let (outcome, keeps) := a.conclude kept tried
    (outcome, (keeps, after))

end Assistant

end CodeSearch.Explain
