import CodeSearch.Search.Query
import CodeSearch.Service.Provider
import CodeSearch.Text.Lower
import CodeSearch.Value.Convert

/-!
Settings: the defaults, what a configuration table says, and what the environment adds.

A table may hold anything. Values are converted to what a setting needs, one after the other in a
fixed order, and the first one that does not fit is the fault that is reported. A key in the
environment chooses the service that it is for wherever the table names no provider.
-/
set_option autoImplicit false

namespace CodeSearch.Config

open CodeSearch.Service
open CodeSearch.Text (NameSet)

/-- The names of directories that hold no code of a project's own. -/
def skippedDirectories : List String := [
  "node_modules", ".git", "dist", "build", ".next", "coverage", ".nyc_output", ".venv", "venv",
  "__pycache__", ".tox", ".pytest_cache", ".mypy_cache", ".ruff_cache", "site-packages", ".eggs",
  "lancedb"]

/-- All that can be set. -/
structure Settings where
  maxDepth : Int := 10
  maxFileBytes : Int := 100000
  contextRadius : Int := 3
  skip : NameSet := NameSet.ofList skippedDirectories
  parseWorkers : Int := 4
  embedWorkers : Int := 8
  embedRetries : Int := 2
  embedBackoff : Float := 0.5
  embedCacheSize : Int := 20000
  vectorEnabled : Bool := true
  vectorUri : String
  collection : String := "codebase_embeddings"
  threshold : Search.Threshold := .real 0.7
  limit : Int := 10
  /-- How many seconds to wait for a build, as it was given; null means without end. -/
  readyTimeout : Value := .null
  embeddings : Choice := {}
  explanations : Choice := {}

/-- The section of a capability. -/
def sectionName : Capability → String
  | .embeddings => "embeddings"
  | .explanations => "llm"

/-- A setting as a whole number. -/
def wholeAt (table : Value) (key : String) (default : Int) : Except Fault Int := do
  (← table.getD key (.int default)).toInt

/-- A setting as a floating-point number. -/
def realAt (table : Value) (key : String) (default : Float) : Except Fault Float := do
  (← table.getD key (.float default)).toFloat

/-- A setting as text. -/
def textAt (table : Value) (key : String) (default : String) : Except Fault String := do
  return (← table.getD key (.text default)).display

/-- One of several values as a member of a set. -/
def memberOf (v : Value) : Except Fault (Option String) :=
  match v with
  | .text name => .ok (some name)
  | .list _ | .table _ => .error (.unhashable v.kind)
  | _ => .ok none

/-- The names of the directories that are skipped besides the usual ones. -/
def extraSkips (index : Value) : Except Fault (List String) := do
  let items ← (← index.getD "skip_dirs" (.list [])).items
  let members ← items.mapM memberOf
  return members.filterMap id

/-- The choice that a section makes, given the key in the environment. -/
def choiceOf (capability : Capability) (environmentKey : String) (table : Value) :
    Except Fault Choice := do
  let named := Text.lower (← textAt table "provider" "")
  let provider := if named.isEmpty then (if environmentKey.isEmpty then "none" else "openai") else named
  let key ← textAt table "api_key" ""
  let model ← textAt table "model" ""
  let endpoint ← textAt table "endpoint" ""
  let dimension ← wholeAt table "dim" 256
  return {
    provider := provider
    model := orElse model (usualModel capability provider)
    apiKey := if key.isEmpty && provider == "openai" then environmentKey else key
    endpoint := endpoint
    dimension := dimension }

/-- A section of a table; an empty one if it is not there. -/
def sectionOf (table : List (String × Value)) (name : String) : Value :=
  (Value.find? name table).getD (.table [])

/-- The settings that a table makes, given where vectors are kept unless it says so, and the key
in the environment. -/
def Settings.ofTable (defaultUri environmentKey : String) (table : List (String × Value)) :
    Except Fault Settings := do
  let index := sectionOf table "index"
  let vector := sectionOf table "vector"
  let search := sectionOf table "search"
  let skips ← extraSkips index
  let maxDepth ← wholeAt index "max_depth" 10
  let maxFileBytes ← wholeAt index "max_file_bytes" 100000
  let contextRadius ← wholeAt index "context_radius" 3
  let parseWorkers ← wholeAt index "parse_workers" 4
  let embedWorkers ← wholeAt index "embed_workers" 8
  let embedRetries ← wholeAt index "embed_retries" 2
  let embedBackoff ← realAt index "embed_backoff" 0.5
  let embedCacheSize ← wholeAt index "embed_cache_size" 20000
  let vectorEnabled := (← vector.getD "enabled" (.bool true)).holds
  let uri ← textAt vector "uri" ""
  let collection ← textAt vector "collection" "codebase_embeddings"
  let threshold ← realAt search "threshold" 0.7
  let limit ← wholeAt search "limit" 10
  let readyTimeout ← search.getD "ready_timeout" .null
  let embeddings ← choiceOf .embeddings environmentKey (sectionOf table "embeddings")
  let explanations ← choiceOf .explanations environmentKey (sectionOf table "llm")
  return {
    maxDepth, maxFileBytes, contextRadius
    skip := NameSet.ofList (skippedDirectories ++ skips)
    parseWorkers, embedWorkers, embedRetries, embedBackoff, embedCacheSize, vectorEnabled
    vectorUri := orElse uri defaultUri
    collection
    threshold := .real threshold
    limit, readyTimeout, embeddings, explanations }

end CodeSearch.Config
