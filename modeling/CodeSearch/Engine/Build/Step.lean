import CodeSearch.Engine.Build.Basic

/-!
The steps of builds.

Each part of a build is made of steps on the engine, and between two steps of a build other builds
and questions may take theirs. A build that finds that a later one has begun stops before the next
part. Files are read and chunks embedded in any order, and a step is told the place of the file or
chunk that it is for.
-/
set_option autoImplicit false

namespace CodeSearch.Engine

open CodeSearch.Embedding (Slot)
open CodeSearch.Index (Generation)

variable {σ : Type}

/-- The table for the vectors of a build. -/
def tableName (e : Engine σ) (number : Int) : String :=
  s!"{e.tablePrefix}{number}"

/-- The engine without the vectors of a generation that is not used any more. -/
def retire (e : Engine σ) (g : Generation) : Engine σ :=
  match g.vector with
  | none => e
  | some index =>
    match Vector.dropCollection e.database index.collection with
    | .ok left => { e with database := left }
    | .error u => e.warn [s!"Could not drop vectors of generation {g.number}: {u.message}"]

/-- The walk through the directory: the files that are to be read, unless the walk was stopped. -/
def Build.walk (e : Engine σ) (b : Build σ) : Build σ × Engine σ :=
  let walked := Files.walk e.disk e.walkLimits b.root
  let stage := match walked.stopped? with
    | some obstacle => .aborting (.error (.broken (obstacle.trouble.fault obstacle.path)))
    | none => .reading (walked.files.map .pending)
  ({ b with stage := stage }, e.warn walked.warnings)

/-- A file read. -/
def readFile (e : Engine σ) (root p : Path) : Except IndexFault Reading × Engine σ :=
  let (said, reported) := Files.fileWarnings e.disk e.parsers e.reported root p
  let e := { e with reported := reported }.warn said
  match Files.fileOutcome e.disk e.parsers e.settings.contextRadius root p with
  | .error fault => (.error (.broken fault), e)
  | .ok (.error s) => (.ok (.skipped s), e.warn [s!"Skipping {s.path}: {s.reason}"])
  | .ok (.ok found) => (.ok (.chunks found), e)

/-- What follows when all files are read. -/
def Build.afterReading (e : Engine σ) (b : Build σ) (extract : Extract) : Stage :=
  if e.holder.isStale b.number then .aborting (.ok (b.abandoned extract 0))
  else .embedding extract (extract.chunks.map Slot.ofChunk)

/-- What follows when nothing more is done for any chunk. -/
def afterEmbedding (extract : Extract) (slots : List Slot) : Stage :=
  match Embedding.firstCrash slots with
  | some fault => .aborting (.error (.broken fault))
  | none => .gathered extract (slots.map (·.result)) (slots.countP (·.isEmbedded))

/-- The generation of a build, without vectors as yet. -/
def Build.generation (b : Build σ) (extract : Extract) (chunks : List Chunk) : Generation where
  number := b.number
  root := b.root.text
  files := extract.files
  chunks := chunks
  lexical := Search.Lexical.ofChunks chunks
  skipped := extract.skipped

/-- What follows when the chunks are complete. -/
def Build.afterGathering (e : Engine σ) (b : Build σ) (extract : Extract) (chunks : List Chunk)
    (embedded : Nat) : Stage :=
  if e.holder.isStale b.number then .aborting (.ok (b.abandoned extract embedded))
  else if embedded ≠ 0 && e.hasStore && e.monitor.available then
    .storing (b.generation extract chunks) embedded
  else .publishing (b.generation extract chunks) embedded

/-- A step on the file at a place; none if there is nothing to be done for it. -/
def Build.readAt (e : Engine σ) (b : Build σ) (readings : List Reading) (place : Nat) :
    Build σ × Engine σ :=
  match readings[place]? with
  | some (.pending p) =>
    match e.readFile b.root p with
    | (.ok r, e) => ({ b with stage := .reading (readings.set place r) }, e)
    | (.error fault, e) => ({ b with stage := .aborting (.error fault) }, e)
  | _ => (b, e)

/-- A step on the chunk at a place. -/
def Build.embedAt (e : Engine σ) (b : Build σ) (embedder : Embedding.Embedder σ) (extract : Extract)
    (slots : List Slot) (place : Nat) : Build σ × Engine σ :=
  match slots[place]? with
  | some slot =>
    let next := slot.step embedder b.pipeline.retries b.pipeline.backoff
      (e.holder.isStale b.number) e.vectors e.world
    ({ b with stage := .embedding extract (slots.set place next.slot) },
      { e with vectors := next.vectors, world := next.world }.note next.notices)
  | none => (b, e)

/-- The vectors stored. Without them the generation is published all the same. -/
def Build.store (e : Engine σ) (b : Build σ) (g : Generation) (embedded : Nat) :
    Build σ × Engine σ :=
  match Vector.VectorIndex.build e.database (e.tableName b.number) g.chunks with
  | .ok (index, written) =>
    ({ b with stage := .publishing { g with vector := some index } embedded },
      { e with database := written })
  | .error (.unavailable u) =>
    ({ b with stage := .publishing g embedded }, e.markDown u.message)
  | .error (.data fault) => ({ b with stage := .aborting (.error (.broken fault)) }, e)

/-- The generation published. -/
def Build.publish (e : Engine σ) (b : Build σ) (g : Generation) (embedded : Nat) :
    Build σ × Engine σ :=
  let (published, old, holder) := e.holder.publish g
  ({ b with stage := .retiring old (summaryOf g embedded published) }, { e with holder := holder })

/-- One step of a build; in the parts that are done in any order, of the file or chunk at a place.
-/
def Build.stepAt (e : Engine σ) (b : Build σ) (place : Nat) : Build σ × Engine σ :=
  match b.stage with
  | .walking => b.walk e
  | .reading readings =>
    if readings.all fun r => !r.isPending then
      ({ b with stage := b.afterReading e (Extract.of readings) }, e)
    else b.readAt e readings place
  | .embedding extract slots =>
    match b.pipeline.embedder with
    | none => ({ b with stage := .gathered extract extract.chunks 0 }, e)
    | some embedder =>
      if slots.all (·.isSettled) then ({ b with stage := afterEmbedding extract slots }, e)
      else b.embedAt e embedder extract slots place
  | .gathered extract chunks embedded =>
    ({ b with stage := b.afterGathering e extract chunks embedded }, e)
  | .storing g embedded => b.store e g embedded
  | .publishing g embedded => b.publish e g embedded
  | .aborting result => ({ b with stage := .ended result }, { e with holder := e.holder.abort })
  | .retiring [] summary => ({ b with stage := .ended (.ok summary) }, e)
  | .retiring (g :: old) summary => ({ b with stage := .retiring old summary }, e.retire g)
  | .ended _ => (b, e)

/-- The place of the next step, when one file or chunk is done after the other. -/
def Build.place (b : Build σ) : Nat :=
  match b.stage with
  | .reading readings => readings.findIdx (·.isPending)
  | .embedding _ slots => slots.findIdx fun s => !s.isSettled
  | _ => 0

/-- The next step of a build. -/
def Build.step (e : Engine σ) (b : Build σ) : Build σ × Engine σ :=
  b.stepAt e b.place

/-- What the next step of a build is about to hand out. -/
def Build.moment? (e : Engine σ) (b : Build σ) : Option Moment :=
  match b.stage with
  | .reading readings =>
    match readings[b.place]? with
    | some (.pending p) => (Files.parsedText? e.disk e.parsers b.root p).map .parse
    | _ => none
  | .embedding _ slots => (slots[b.place]?.bind (·.request?)).map .embed
  | .storing g _ =>
    match Vector.rowsOf (e.tableName b.number) (Vector.entriesOf g.chunks) with
    | .ok (row :: _) => some (.store (Vector.column row "document").display)
    | _ => none
  | _ => none

end CodeSearch.Engine
