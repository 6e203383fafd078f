import CodeSearch.Config.Settings
import CodeSearch.Embedding.Pipeline
import CodeSearch.Explain.Assistant
import CodeSearch.Files.Reading
import CodeSearch.Index.Holder
import CodeSearch.Search.Monitor
import CodeSearch.Search.Result

/-!
The engine: everything that outlives a single question or build.

Builds and questions are steps on an engine (`Engine.Build`, `Engine.Inquiry`). Between two steps
other builds and questions may take theirs, so what a step sees is what the engine holds at that
time. A `Moment` is what a step is about to hand out; whoever drives the steps may do something
else first.
-/
set_option autoImplicit false

namespace CodeSearch

open CodeSearch.Index (Generation Holder NotIndexed)
open CodeSearch.Search (Query Result Monitor)

/-- What a question is remembered by: the generation, the question, and whether the store of
vectors was asked. A threshold is remembered by its value, however it was given. -/
structure ResultKey where
  generation : Int
  text : Option String
  threshold : UInt64
  limit : Int
  kind : Option String
  vectors : Bool
deriving DecidableEq

/-- How many answers are remembered. -/
def resultRoom : Nat := 64

/-- What a step is about to hand out. -/
inductive Moment where
  /-- A text to a parser. -/
  | parse (text : String)
  /-- A text to the embedder. -/
  | embed (text : String)
  /-- A table to the database, with the document of its first row. -/
  | store (document : String)

/-- The engine, with the world outside as far as services change it. -/
structure Engine (σ : Type) where
  settings : Config.Settings
  parsers : Tree.Parsers
  embedder : Option (Embedding.Embedder σ)
  explainer : Option (Explain.Explainer σ)
  /-- Whether there is a store of vectors at all. -/
  hasStore : Bool
  /-- What tells the tables of this engine from those of others in the same database. -/
  session : String
  /-- The home directories of accounts; that of no name is one's own. -/
  homeOf : String → Option String
  monitor : Monitor
  holder : Holder := {}
  results : Lru ResultKey (List Result) := Lru.empty resultRoom
  vectors : Embedding.Vectors
  reported : Tree.Reported := []
  database : Vector.Database
  disk : Files.Disk
  world : σ
  notices : List Notice := []

namespace Engine

variable {σ : Type}

/-- The engine with notices added. -/
def note (e : Engine σ) (said : List Notice) : Engine σ :=
  { e with notices := e.notices ++ said }

/-- The engine with warnings added. -/
def warn (e : Engine σ) (said : List String) : Engine σ :=
  e.note (said.map .warning)

/-- The way the engine embeds. -/
def pipeline (e : Engine σ) : Embedding.Pipeline σ :=
  Embedding.Pipeline.new e.embedder e.settings.embedRetries e.settings.embedBackoff
    e.settings.embedCacheSize

/-- Whether the store of vectors may be asked at the start, with a warning if not: it has to list
its tables. -/
def handshake (hasStore : Bool) (database : Vector.Database) : Bool × List String :=
  if !hasStore then (false, [])
  else
    match Vector.collections database with
    | .ok _ => (true, [])
    | .error u => (false, ["Vector backend unreachable, using lexical search: " ++ u.message])

/-- A new engine. -/
def new (settings : Config.Settings) (parsers : Tree.Parsers)
    (embedder : Option (Embedding.Embedder σ)) (explainer : Option (Explain.Explainer σ))
    (hasStore : Bool) (session : String) (homeOf : String → Option String)
    (database : Vector.Database) (disk : Files.Disk) (world : σ) : Engine σ :=
  let (available, said) := handshake hasStore database
  { settings, parsers, embedder, explainer, hasStore, session, homeOf, database, disk, world
    monitor := { available := available }
    vectors := Lru.empty settings.embedCacheSize.toNat
    notices := said.map .warning }

/-- The engine with no answers remembered. -/
def clearResults (e : Engine σ) : Engine σ :=
  { e with results := e.results.clear }

/-- How questions are answered at the moment. -/
def backend (e : Engine σ) : Backend :=
  let served := match e.holder.current with
    | some g => g.vector.isSome
    | none => true
  if served && e.monitor.available then .vector else .lexical

/-- What the names of the tables of this engine begin with. -/
def tablePrefix (e : Engine σ) : String :=
  s!"{e.settings.collection}_{e.session}_"

/-- Whether a table is one of this engine, by its name. -/
def owns (e : Engine σ) (table : String) : Bool :=
  e.tablePrefix.toList.isPrefixOf table.toList

/-- The store of vectors given up for a reason. -/
def markDown (e : Engine σ) (reason : String) : Engine σ :=
  let (monitor, said) := e.monitor.markDown reason
  { e with monitor := monitor }.warn said

/-- The tables whose names begin with a text dropped one after the other, as far as that works. -/
def dropAll (database : Vector.Database) :
    List String → Except Vector.Unavailable Unit × Vector.Database
  | [] => (.ok (), database)
  | name :: rest =>
    match Vector.dropCollection database name with
    | .ok left => dropAll left rest
    | .error u => (.error u, database)

/-- The engine closed: its tables are dropped, if its store still serves. -/
def close (e : Engine σ) : Engine σ :=
  if !(e.hasStore && e.monitor.available) then e
  else
    let trouble (u : Vector.Unavailable) : List String :=
      ["Could not clean up vector tables: " ++ u.message]
    match Vector.collections e.database with
    | .error u => e.warn (trouble u)
    | .ok names =>
      match dropAll e.database (names.filter e.owns) with
      | (.ok (), left) => { e with database := left }
      | (.error u, left) => { e with database := left }.warn (trouble u)

/-- The current generation, for a reader that waits as long as the settings say. -/
def ready (e : Engine σ) : Except NotIndexed Generation :=
  e.holder.await e.settings.readyTimeout

end Engine

end CodeSearch
