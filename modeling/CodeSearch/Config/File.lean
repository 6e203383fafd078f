import CodeSearch.Config.Format
import CodeSearch.Config.Settings
import CodeSearch.Files.Reading

/-!
The configuration file.

A file that is not there says nothing, and neither does one that cannot be read or breaks the rules
of its format, which is reported. Octets that are no text are not expected, and neither is a path of
which it cannot be told whether it leads to a file. Saving replaces one section and writes the whole
file anew; the sections are those that were read.
-/
set_option autoImplicit false

namespace CodeSearch.Config

open CodeSearch.Files (Disk)
open CodeSearch.Service

/-- The directory of the program: the one that is set, or one in the home directory. -/
def baseDirectory (homeOf : String → Option String) (set? : Option String) :
    Except Path.HomeFault Path :=
  match set? with
  | some text => (Path.ofString text).expandHome homeOf
  | none =>
    match homeOf "" with
    | some home => .ok ((Path.ofString home).below ".codesift")
    | none => .error .unknown

/-- The configuration file in the directory of the program. -/
def filePath (base : Path) : Path := base.below "config.toml"

/-- Where vectors are kept unless it is set. -/
def defaultUri (base : Path) : String := (base.below "lancedb").text

/-- The warning that a file is not used. -/
def unreadable : String := "Ignoring unreadable config file"

/-- The table that the file holds, and warnings. -/
def load (format : Format) (d : Disk) (base : Path) :
    Except Fault (List (String × Value) × List String) :=
  let path := filePath base
  match d.has path with
  | .error trouble => .error (trouble.fault path)
  | .ok false => .ok ([], [])
  | .ok true =>
    match d.read path with
    | .error _ => .ok ([], [unreadable])
    | .ok octets =>
      match Text.decode octets with
      | .error fault => .error (.notText (Files.encodingTrouble fault))
      | .ok text =>
        match format.read (String.ofList (Text.unifyBreaks text)) with
        | .ok table => .ok (table, [])
        | .error .malformed => .ok ([], [unreadable])
        | .error (.broken f) => .error f

/-- A section of the file as a table of its own; empty if it is something else. -/
def loadSection (table : List (String × Value)) (name : String) : List (String × Value) :=
  match Value.find? name table with
  | some (.table entries) => entries
  | _ => []

/-- The sections that can be saved. -/
def knownSections : List String := ["embeddings", "llm", "index", "vector", "search"]

/-- Why nothing is saved. -/
inductive SaveFault where
  | unknownSection (name : String)
  /-- The file could not be read, for a reason that is not expected. -/
  | broken (f : Fault)

/-- The wording of a cause. -/
def SaveFault.message : SaveFault → String
  | .unknownSection name =>
    s!"Unknown config section '{name}'. Available: " ++ ", ".intercalate knownSections
  | .broken f => f.message

/-- Whether a value is worth saving: there is one, and it is not the empty text. -/
def isGiven : Value → Bool
  | .null => false
  | .text s => !s.isEmpty
  | _ => true

/-- The table with a section replaced by the values that are given. -/
def withSection (name : String) (values table : List (String × Value)) : List (String × Value) :=
  Value.setEntry name (.table (values.filter fun entry => isGiven entry.2)) table

/-- The disk with a table written to the file, in a directory that is made if it has to be. The
directories that were made stay even if the file cannot be written. -/
def store (format : Format) (d : Disk) (base : Path) (table : List (String × Value)) : Files.Disk.Made :=
  let path := filePath base
  let prepared := d.ensureDirectory path.parent
  if prepared.obstacle?.isSome then prepared
  else
    match prepared.disk.write path (Text.encode (format.write table).toList) with
    | .error obstacle => ⟨prepared.disk, some obstacle⟩
    | .ok written => { disk := written }

/-- What saving came to: whether the file was written, the disk, and warnings. -/
structure Saved where
  done : Bool
  disk : Disk
  warnings : List String

/-- A section saved. -/
def saveSection (format : Format) (d : Disk) (base : Path) (name : String)
    (values : List (String × Value)) : Except SaveFault Saved :=
  if !knownSections.contains name then .error (.unknownSection name)
  else
    match load format d base with
    | .error f => .error (.broken f)
    | .ok (table, warnings) =>
      let stored := store format d base (withSection name values table)
      match stored.obstacle? with
      | none => .ok ⟨true, stored.disk, warnings⟩
      | some obstacle =>
        .ok ⟨false, stored.disk, warnings ++
          [s!"Could not write config file {(filePath base).text}: {obstacle.message}"]⟩

/-- The entries that make a choice. Without a model the usual one of the provider, as it is
spelled, is taken. -/
def choiceEntries (capability : Capability) (provider model apiKey endpoint : String) :
    List (String × Value) := [
  ("provider", .text provider),
  ("model", .text (orElse model (usualModel capability provider))),
  ("api_key", .text apiKey),
  ("endpoint", .text endpoint)]

/-- A choice saved. -/
def saveChoice (format : Format) (d : Disk) (base : Path) (capability : Capability)
    (provider model apiKey endpoint : String) : Except SaveFault Saved :=
  saveSection format d base (sectionName capability)
    (choiceEntries capability provider model apiKey endpoint)

/-- The settings of the file and the environment, and warnings. -/
def loadSettings (format : Format) (d : Disk) (base : Path) (environmentKey : String) :
    Except Fault Settings × List String :=
  match load format d base with
  | .error f => (.error f, [])
  | .ok (table, warnings) => (Settings.ofTable (defaultUri base) environmentKey table, warnings)

end CodeSearch.Config
