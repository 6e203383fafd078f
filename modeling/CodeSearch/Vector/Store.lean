import CodeSearch.Chunk.Basic
import CodeSearch.Files.Tree
import CodeSearch.Json.Parser
import CodeSearch.Text.Occurrence
import CodeSearch.Value.Convert
import CodeSearch.Vector.Database

/-!
Entries in a database of vectors.

Whatever goes wrong in the database makes the store unavailable, with the operation that failed
and the reason. What goes wrong with data before the database is asked, or with rows after it has
answered, is a fault of the data.
-/
set_option autoImplicit false

namespace CodeSearch.Vector

/-- Why the store does not serve. -/
inductive Unavailable where
  | notInstalled
  | connection (uri reason : String)
  | listing (reason : String)
  | dropping (collection reason : String)
  | counting (collection reason : String)
  | writing (collection reason : String)
  | searching (collection reason : String)
deriving DecidableEq, Repr

/-- The wording of a cause. -/
def Unavailable.message : Unavailable → String
  | .notInstalled => "lancedb is not installed. Install with: pip install lancedb pyarrow"
  | .connection uri reason => s!"Cannot open LanceDB at {uri}: {reason}"
  | .listing reason => s!"LanceDB listing failed: {reason}"
  | .dropping collection reason => s!"LanceDB drop of '{collection}' failed: {reason}"
  | .counting collection reason => s!"LanceDB count of '{collection}' failed: {reason}"
  | .writing collection reason => s!"LanceDB write to '{collection}' failed: {reason}"
  | .searching collection reason => s!"LanceDB search on '{collection}' failed: {reason}"

/-- What can go wrong with a store. -/
inductive StoreFault where
  | unavailable (u : Unavailable)
  | data (f : Fault)

/-! ## Opening -/

/-- Whether a place for vectors is on another machine. -/
def isRemote (uri : String) : Bool :=
  Text.contains "://".toList uri.toList

/-- The disk with the place for vectors made a directory, unless it is on another machine. -/
def prepare (disk : Files.Disk) (uri : String) : Except Unavailable Files.Disk :=
  if isRemote uri then .ok disk
  else
    let made := disk.ensureDirectory (Path.ofString uri)
    match made.obstacle? with
    | none => .ok made.disk
    | some obstacle => .error (.connection uri obstacle.message)

/-- A connection to the database at a place. -/
def connect (db : Database) (uri : String) : Except Unavailable Unit :=
  match db.check .connect with
  | .error reason => .error (.connection uri reason)
  | .ok () => .ok ()

/-! ## Collections -/

/-- The names of the collections. -/
def collections (db : Database) : Except Unavailable (List String) :=
  match db.tableNames with
  | .ok names => .ok names
  | .error reason => .error (.listing reason)

/-- The database without a collection; one that is not there is no fault. -/
def dropCollection (db : Database) (collection : String) : Except Unavailable Database :=
  match db.tableNames with
  | .error reason => .error (.dropping collection reason)
  | .ok names =>
    if names.contains collection then
      match db.dropTable collection with
      | .ok left => .ok left
      | .error reason => .error (.dropping collection reason)
    else .ok db

/-- How many entries a collection holds. -/
def countRows (db : Database) (collection : String) : Except Unavailable Nat :=
  match db.openTable collection with
  | .ok rows => .ok rows.length
  | .error reason => .error (.counting collection reason)

/-! ## Writing -/

/-- Why entries do not make a table. -/
inductive TableFault where
  | length (expected got : Nat)
  | notText (kind : String)
  | lineTooLarge (line : Int)
  | lineFarTooLarge

/-- The wording of a cause. -/
def TableFault.message : TableFault → String
  | .length expected got =>
    s!"Length of item not correct: expected {expected} but got array of size {got}"
  | .notText kind => s!"Expected bytes, got a '{kind}' object"
  | .lineTooLarge line => s!"Value {line} too large to fit in C integer type"
  | .lineFarTooLarge => "Python int too large to convert to C long"

/-- An entry as it goes into a table. -/
structure Stored where
  id : String
  vector : List Float
  document : String
  kind : Value
  name : Value
  path : Value
  line : Int
  dependencies : Value

/-- An entry with its vector, its columns taken apart. -/
def Stored.ofEntry (e : Entry) (vector : List Float) : Except Fault Stored := do
  let column (name : String) (default : Value) : Value := (Value.find? name e.columns).getD default
  let line ← (column "line" (.int 0)).toInt
  return {
    id := e.id
    vector := vector
    document := e.document
    kind := column "kind" (.text "")
    name := column "name" (.text "")
    path := column "file_path" (.text "")
    line := line
    dependencies := column "dependencies" (.text "[]") }

/-- The entries that have a vector which is not empty. -/
def storable (entries : List Entry) : List (Entry × List Float) :=
  entries.filterMap fun e =>
    match e.embedding with
    | some (x :: rest) => some (e, x :: rest)
    | _ => none

/-- What is wrong with a column of text, if anything. -/
def textFault? (column : Stored → Value) (rows : List Stored) : Option TableFault :=
  rows.findSome? fun row =>
    match column row with
    | .text _ => none
    | .null => none
    | v => some (.notText v.kind)

/-- What is wrong with the vectors: all have to be as long as the first one. -/
def lengthFault? (rows : List Stored) : Option TableFault :=
  match rows with
  | [] => none
  | first :: _ =>
    rows.findSome? fun row =>
      if row.vector.length = first.vector.length then none
      else some (.length first.vector.length row.vector.length)

/-- What is wrong with the line numbers: they have 32 bits. -/
def lineFault? (rows : List Stored) : Option TableFault :=
  rows.findSome? fun row =>
    if -(Nat.pow 2 31 : Int) ≤ row.line ∧ row.line < (Nat.pow 2 31 : Int) then none
    else if -(Nat.pow 2 63 : Int) ≤ row.line ∧ row.line < (Nat.pow 2 63 : Int) then
      some (.lineTooLarge row.line)
    else some .lineFarTooLarge

/-- What is wrong with a table, column by column. -/
def tableFault? (rows : List Stored) : Option TableFault :=
  lengthFault? rows <|> textFault? (·.kind) rows <|> textFault? (·.name) rows <|>
    textFault? (·.path) rows <|> lineFault? rows <|> textFault? (·.dependencies) rows

/-- An entry as a row. Vectors are kept with 24 significant bits. -/
def Stored.row (s : Stored) : Row := [
  ("id", .text s.id),
  ("vector", .list (s.vector.map fun x => .float (Decimal.single x))),
  ("document", .text s.document),
  ("kind", s.kind),
  ("name", s.name),
  ("file_path", s.path),
  ("line", .int s.line),
  ("dependencies", s.dependencies)]

/-- The rows of the entries that have a vector. -/
def rowsOf (collection : String) (entries : List Entry) : Except StoreFault (List Row) :=
  match (storable entries).mapM fun (e, vector) => Stored.ofEntry e vector with
  | .error fault => .error (.data fault)
  | .ok stored =>
    match tableFault? stored with
    | some fault => .error (.unavailable (.writing collection fault.message))
    | none => .ok (stored.map (·.row))

/-- The database with a collection replaced by rows; no rows leave it as it is. -/
def writeRows (db : Database) (collection : String) (rows : List Row) :
    Except StoreFault Database :=
  if rows.isEmpty then .ok db
  else
    match db.createTable collection rows with
    | .ok written => .ok written
    | .error reason => .error (.unavailable (.writing collection reason))

/-- The database with a collection replaced by the entries that have a vector. -/
def upsert (db : Database) (collection : String) (entries : List Entry) :
    Except StoreFault Database := do
  let rows ← rowsOf collection entries
  writeRows db collection rows

/-! ## Searching -/

/-- A row that was found. Its columns are as the database gives them. -/
structure Hit where
  id : Value
  distance : Float
  columns : List (String × Value)
  document : Value

/-- The names in the column of the dependencies; a column with nothing in it holds none. -/
def dependenciesIn (column : Value) : Except Fault Value :=
  if !column.holds then .ok (.list [])
  else
    match column with
    | .text s =>
      match Json.parse s with
      | some v => .ok v
      | none => .error .notJson
    | v => .error (.noJsonOf v.kind)

/-- The hit that a row stands for. -/
def Hit.ofRow (row : Row) : Except Fault Hit := do
  let column (name : String) (default : Value) : Value := (Value.find? name row).getD default
  let distance ← (column "_distance" (.float 1.0)).toFloat
  let needs ← dependenciesIn (column "dependencies" .null)
  return {
    id := column "id" (.text "")
    distance := distance
    columns := [
      ("kind", column "kind" (.text "")),
      ("name", column "name" (.text "")),
      ("file_path", column "file_path" (.text "")),
      ("line", column "line" (.int 0)),
      ("dependencies", needs)]
    document := column "document" (.text "") }

/-- The kind that is asked for; the empty one is none. -/
def askedKind (kind : Option String) : Option String :=
  kind.filter fun k => !k.isEmpty

/-- The condition of a search for a kind. -/
def askedClause (kind : Option String) : Option String :=
  (askedKind kind).map kindClause

/-- The nearest entries of a collection. -/
def queryStore (db : Database) (collection : String) (vector : List Float) (limit : Int)
    (kind : Option String) : Except StoreFault (List Hit) × Database :=
  match db.search collection vector limit (askedClause kind) with
  | .error reason => (.error (.unavailable (.searching collection reason)), db)
  | .ok (rows, asked) =>
    match rows.mapM Hit.ofRow with
    | .ok hits => (.ok hits, asked)
    | .error fault => (.error (.data fault), asked)

end CodeSearch.Vector
