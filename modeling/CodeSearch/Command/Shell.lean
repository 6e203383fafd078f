import CodeSearch.Config.File
import CodeSearch.Embedding.Selection
import CodeSearch.Engine.Build.Ending
import CodeSearch.Engine.Explanation

/-!
The surroundings of a command, and the engine that it makes there.

A command finds a disk, a database of vectors, an environment and services, and leaves them to the
next one. Its engine is made from the configuration file; an embedder, a store or an explainer
that cannot be had is reported and done without.
-/
set_option autoImplicit false

namespace CodeSearch

namespace Service

/-- An exchange in a world that has something else in it. -/
def beside {σ τ : Type} (exchange : Exchange σ) : Exchange (τ × σ) :=
  fun request (other, world) =>
    let (reply, after) := exchange request world
    (reply, (other, after))

end Service

namespace Command

/-- What a command finds. -/
structure Shell (σ : Type) where
  /-- The directory of the program, with the configuration file. -/
  base : Path
  /-- How the configuration file is written. -/
  format : Config.Format
  /-- The key in the environment; empty if there is none. -/
  environmentKey : String
  homeOf : String → Option String
  parsers : Tree.Parsers
  session : String
  exchange : Service.Exchange σ
  disk : Files.Disk
  database : Vector.Database
  world : σ

namespace Shell

variable {σ : Type}

/-- The embedder of a choice, and warnings. -/
def embedder (s : Shell σ) (c : Service.Choice) :
    Option (Embedding.Embedder (String × σ)) × List String :=
  match Embedding.select c with
  | .ok selection => (selection.map (·.embedder (Service.beside s.exchange)), [])
  | .error objection => (none, [objection.message])

/-- The explainer of a choice, and warnings. -/
def explainer (s : Shell σ) (c : Service.Choice) :
    Option (Explain.Explainer (String × σ)) × List String :=
  match Explain.Assistant.ofChoice c with
  | .ok assistant => (assistant.map fun a => a.explain s.exchange, [])
  | .error unknown => (none, [Explain.disabled unknown])

/-- The store of vectors at a place opened: whether it serves, the disk after that, and warnings. -/
def openStore (s : Shell σ) (uri : String) : Bool × Files.Disk × List String :=
  let trouble (u : Vector.Unavailable) : List String := ["Vector backend disabled: " ++ u.message]
  match Vector.prepare s.disk uri with
  | .error u => (false, s.disk, trouble u)
  | .ok prepared =>
    match Vector.connect s.database uri with
    | .error u => (false, prepared, trouble u)
    | .ok () => (true, prepared, [])

/-- The engine for some settings. -/
def engineFor (s : Shell σ) (settings : Config.Settings) : Engine (String × σ) :=
  let (embedder, noEmbedder) := s.embedder settings.embeddings
  let (hasStore, disk, noStore) :=
    if settings.vectorEnabled && embedder.isSome then s.openStore settings.vectorUri
    else (false, s.disk, [])
  let (explainer, noExplainer) := s.explainer settings.explanations
  let e := Engine.new settings s.parsers embedder explainer hasStore s.session s.homeOf s.database
    disk ("", s.world)
  { e with notices := (noEmbedder ++ noStore ++ noExplainer).map .warning ++ e.notices }

/-- The surroundings that an engine leaves, once it is closed. -/
def leave (s : Shell σ) (e : Engine (String × σ)) : Shell σ :=
  { s with disk := e.disk, database := e.database, world := e.world.2 }

end Shell

end Command

end CodeSearch
