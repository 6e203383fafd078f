import CodeSearch.Config.Settings
import CodeSearch.Index.Generation
import CodeSearch.Record.Basic
import CodeSearch.Service.Http
import CodeSearch.Vector.Store

/-!
Records of what the library deals with outside: services, settings, and the database of vectors.
-/
set_option autoImplicit false

namespace CodeSearch.Record

open CodeSearch.Service (Choice Reply Request)

/-! ## Services -/

/-- The reply of a record. A record of a reply that did not come has the reason under "raise". -/
def toReply (v : Value) : Reply :=
  match field? v "raise" with
  | some reason => .unreachable (text reason)
  | none =>
    .answer (wholeAt v "status" 200) <|
      match field? v "bad_json" with
      | some reason => .malformed (text reason)
      | none => .data ((field? v "json").getD .null)

/-- The record of a request. -/
def ofRequest (r : Request) : Value :=
  .table [
    ("url", .text r.url),
    ("headers", .table (r.headers.map fun header => (header.1, .text header.2))),
    ("json", r.body),
    ("timeout", r.timeout)]

/-- The choice of a record. -/
def toChoice (v : Value) : Choice where
  provider := textAt v "provider" "none"
  model := textAt v "model"
  apiKey := textAt v "api_key"
  endpoint := textAt v "endpoint"
  dimension := wholeAt v "dim" 256

/-- The record of a choice. -/
def ofChoice (c : Choice) : Value :=
  .table [
    ("provider", .text c.provider),
    ("model", .text c.model),
    ("api_key", .text c.apiKey),
    ("endpoint", .text c.endpoint),
    ("dim", .int c.dimension)]

/-! ## Settings -/

/-- The record of a threshold. -/
def ofThreshold : Search.Threshold → Value
  | .whole i => .int i
  | .real x => .float x

/-- The record of settings. -/
def ofSettings (s : Config.Settings) : Value :=
  .table [
    ("max_depth", .int s.maxDepth),
    ("max_file_bytes", .int s.maxFileBytes),
    ("context_radius", .int s.contextRadius),
    ("skip_dirs", ofTexts s.skip.names),
    ("parse_workers", .int s.parseWorkers),
    ("embed_workers", .int s.embedWorkers),
    ("embed_retries", .int s.embedRetries),
    ("embed_backoff", .float s.embedBackoff),
    ("embed_cache_size", .int s.embedCacheSize),
    ("vector_enabled", .bool s.vectorEnabled),
    ("vector_uri", .text s.vectorUri),
    ("collection", .text s.collection),
    ("default_threshold", ofThreshold s.threshold),
    ("default_limit", .int s.limit),
    ("ready_timeout", s.readyTimeout),
    ("embeddings", ofChoice s.embeddings),
    ("llm", ofChoice s.explanations),
    ("embeddings_configured", .bool s.embeddings.isMade),
    ("llm_configured", .bool s.explanations.isMade)]

/-! ## The database of vectors -/

/-- The operation of a name. -/
def toOperation? : String → Option Vector.Operation
  | "connect" => some .connect
  | "list" => some .list
  | "create" => some .create
  | "drop" => some .drop
  | "open" => some .open
  | "search" => some .search
  | _ => none

/-- The operations that a field makes fail, with their reasons. -/
def failuresAt (v : Value) (key : String) : List (Vector.Operation × String) :=
  (entriesAt v key).filterMap fun (name, reason) =>
    (toOperation? name).map fun operation => (operation, text reason)

/-- The record of a search. -/
def ofCall (c : Vector.Call) : Value :=
  .table [
    ("table", .text c.table),
    ("distance_type", .text "cosine"),
    ("limit", .int c.limit),
    ("where", ofOption .text c.clause),
    ("prefilter", if c.clause.isSome then .bool true else .null)]

/-- The record of a hit. -/
def ofHit (h : Vector.Hit) : Value :=
  .table [
    ("id", h.id),
    ("distance", .float h.distance),
    ("metadata", .table h.columns),
    ("document", h.document)]

/-- The numbers of rows of the tables. -/
def ofTables (d : Vector.Database) : Value :=
  ofCounts (d.tables.map fun table => (table.1, table.2.length))

/-- The rows of a table; null if it is not there. -/
def ofTable (d : Vector.Database) (name : String) : Value :=
  ofOption (fun rows => .list (rows.map .table)) (d.rows? name)

/-! ## Generations -/

/-- The record of a generation. -/
def ofGeneration (g : Index.Generation) : Value :=
  .table [
    ("number", .int g.number),
    ("chunks", ofTexts (g.chunks.map (·.id))),
    ("mode", .text g.backend.name),
    ("embedded", ofNat g.embedded)]

end CodeSearch.Record
