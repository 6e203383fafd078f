import CodeSearch.Engine.Basic

/-!
Builds: from a directory to a generation.

A build walks through the directory, reads the files, embeds the chunks, stores the vectors, publishes
the generation and retires what has to go. How far it has come is its stage; what it has found so far is kept there,
and nothing of it is seen from outside before the generation is published.
-/
set_option autoImplicit false

namespace CodeSearch

open CodeSearch.Embedding (Slot)
open CodeSearch.Index (Generation)
open CodeSearch.Tree (Skipped)

/-- Why a directory is not indexed. -/
inductive IndexFault where
  | missing (path : String)
  | notDirectory (path : String)
  | home (f : Path.HomeFault)
  /-- Something broke on the way. -/
  | broken (f : Fault)

/-- The wording of a cause. -/
def IndexFault.message : IndexFault → String
  | .missing path => s!"Path does not exist: {path}"
  | .notDirectory path => s!"Path is not a directory: {path}"
  | .home f => f.message
  | .broken f => f.message

namespace Engine

/-- A file with what it has come to. -/
inductive Reading where
  | pending (p : Path)
  | chunks (found : List Chunk)
  | skipped (s : Skipped)

/-- Whether a file is still to be read. -/
def Reading.isPending : Reading → Bool
  | .pending _ => true
  | _ => false

/-- What all files come to. -/
structure Extract where
  files : Nat
  chunks : List Chunk
  skipped : List Skipped

/-- What files have come to, in their order. -/
def Extract.of (readings : List Reading) : Extract where
  files := readings.length
  chunks := readings.flatMap fun r =>
    match r with
    | .chunks found => found
    | _ => []
  skipped := readings.filterMap fun r =>
    match r with
    | .skipped s => some s
    | _ => none

/-- How far a build has come. -/
inductive Stage where
  /-- It is not known yet which files there are. -/
  | walking
  | reading (readings : List Reading)
  | embedding (extract : Extract) (slots : List Slot)
  /-- All chunks have been gone through, and so many of them are embedded. -/
  | gathered (extract : Extract) (chunks : List Chunk) (embedded : Nat)
  /-- The vectors are to be stored. -/
  | storing (g : Generation) (embedded : Nat)
  | publishing (g : Generation) (embedded : Nat)
  /-- It ends without a generation. -/
  | aborting (result : Except IndexFault Summary)
  | retiring (old : List Generation) (summary : Summary)
  | ended (result : Except IndexFault Summary)

/-- A build: its number, the directory, and the way it embeds. -/
structure Build (σ : Type) where
  number : Int
  root : Path
  pipeline : Embedding.Pipeline σ
  stage : Stage

variable {σ : Type}

/-! ## Beginning -/

/-- How far the engine goes into a directory. -/
def walkLimits (e : Engine σ) : Files.WalkLimits where
  depth := e.settings.maxDepth
  size := e.settings.maxFileBytes
  skip := e.settings.skip.names

/-- What the system says of a path; a trouble in place of an answer breaks the call. -/
def told {α : Type} (p : Path) (said : Except Files.Trouble α) : Except IndexFault α :=
  said.mapError fun trouble => .broken (trouble.fault p)

/-- The directory that a text names. -/
def rootOf (e : Engine σ) (path : String) : Except IndexFault Path := do
  let given ← (Path.expandHome e.homeOf (Path.ofString path)).mapError .home
  if !(← told given (e.disk.has given)) then throw (.missing path)
  if !(← told given (e.disk.isDirectory given)) then throw (.notDirectory path)
  return (e.disk.resolve given).toOption.getD given

/-- A build begun: it has its number and its directory. -/
def begin (e : Engine σ) (path : String) : Except IndexFault (Build σ × Engine σ) := do
  let root ← e.rootOf path
  let (number, holder) := e.holder.start
  return ({ number := number, root := root, pipeline := e.pipeline, stage := .walking },
    { e with holder := holder })

/-! ## Summaries -/

/-- The summary of what a build has found when it stops without a generation. -/
def Build.abandoned (b : Build σ) (extract : Extract) (embedded : Nat) : Summary where
  path := b.root.text
  generation := b.number.toNat
  files := extract.files
  chunks := extract.chunks.length
  embedded := embedded
  backend := .lexical
  skipped := extract.skipped
  discarded := true

/-- The summary of a build that has made a generation. -/
def summaryOf (g : Generation) (embedded : Nat) (published : Bool) : Summary where
  path := g.root
  generation := g.number.toNat
  files := g.files
  chunks := g.chunks.length
  embedded := embedded
  backend := g.backend
  skipped := g.skipped
  discarded := !published

end Engine

end CodeSearch
