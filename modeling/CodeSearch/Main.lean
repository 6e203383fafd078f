import CodeSearch.Command.Arguments
import CodeSearch.Record.Files

/-!
The program: one command on the files of a directory.

Syntax trees come from outside. The tree of a file is read from the file with the same name and
`.tree.json` behind it, in the form of its record; a file without one is empty to the program.
Services are not reached from here, and the tables of vectors last as long as the command.
-/
set_option autoImplicit false

namespace CodeSearch.Main

open CodeSearch.Command
open CodeSearch.Files (Disk Item)

/-- The content of a file; nothing if it cannot be read. -/
def contentOf (path : String) : IO (List UInt8) := do
  match ← (IO.FS.readBinFile path).toBaseIO with
  | .ok octets => return octets.toList
  | .error _ => return []

/-- The tree of a file with some content, if there is one. -/
def treeFor (path : String) (octets : List UInt8) : IO Record.Trees := do
  match Text.decode octets, Text.decode (← contentOf (path ++ ".tree.json")) with
  | .ok text, .ok tree =>
    match Json.parse (String.ofList tree) with
    | some record =>
      return [(Tree.Language.ofPath? path, Text.unifyBreaks text, Record.toNode record)]
    | none => return []
  | _, _ => return []

/-- What stands at a path, as many levels of directories deep as is said, and the trees of the
files. -/
def load : Nat → String → IO (Item × Record.Trees)
  | 0, _ => return (.directory [], [])
  | levels + 1, path => do
    let place ← IO.FS.realPath path
    if ← place.isDir then
      let names := (← place.readDir).toList.map (·.fileName)
      let found ← names.mapM fun name => do
        return (name, ← load levels (path ++ "/" ++ name))
      return (.directory (found.map fun entry => (entry.1, entry.2.1)),
        found.flatMap fun entry => entry.2.2)
    else
      let octets ← contentOf path
      return (.file octets, ← treeFor path octets)

/-- A disk with a file or directory put at the place that a path spells. -/
def withItem (d : Disk) (path : String) (item : Item) : Disk :=
  d.put (Path.ofString path) item

/-- What a command finds here. -/
def shell (path? : Option String) : IO (Shell Unit) := do
  let own ← IO.getEnv "HOME"
  let homeOf (account : String) : Option String := if account.isEmpty then own else none
  let base := (Config.baseDirectory homeOf (← IO.getEnv "CODESIFT_HOME")).toOption.getD ⟨1, []⟩
  let file := (Config.filePath base).text
  let empty : Disk := ⟨⟨1, []⟩, .directory []⟩
  let settings ← contentOf file
  let disk := if settings.isEmpty then empty else withItem empty file (.file settings)
  let (disk, trees) ← match path? with
    | none => pure (disk, [])
    | some path => do
      match ← (load 64 path).toBaseIO with
      | .ok (item, trees) => pure (withItem disk path item, trees)
      | .error _ => pure (disk, [])
  return {
    base := base
    format := .toml
    environmentKey := (← IO.getEnv "OPENAI_API_KEY").getD ""
    homeOf := homeOf
    parsers := ⟨fun _ => none, fun language text => (Record.treeOf? trees language text).getD default⟩
    session := toString (← IO.monoMsNow)
    exchange := fun _ world => (.unreachable "services cannot be reached from here", world)
    disk := disk
    database := {}
    world := () }

/-- The request with its directory as a full path, where there is one. -/
def withFullPath (request : Request) : IO Request := do
  let full (path : String) : IO String := do
    match ← (IO.FS.realPath path).toBaseIO with
    | .ok found => return found.toString
    | .error _ => return path
  match request with
  | .index path => return .index (← full path)
  | .question path q => return .question (← full path) q
  | other => return other

/-- The configuration file of a disk written where it belongs. -/
def keepSettings (before after : Shell Unit) : IO Unit := do
  let file := Config.filePath before.base
  match before.disk.read file, after.disk.read file with
  | .ok old, .ok new => if old != new then IO.FS.writeBinFile file.text ⟨new.toArray⟩
  | .error _, .ok new =>
    IO.FS.createDirAll before.base.text
    IO.FS.writeBinFile file.text ⟨new.toArray⟩
  | _, _ => return ()

/-- A request carried out, and all that comes of it shown. -/
def carryOut (request : Request) : IO UInt32 := do
  let request ← withFullPath request
  let before ← shell request.path?
  let (response, after) := before.run request
  keepSettings before after
  for warning in response.warnings do
    IO.eprintln warning
  for said in response.said.toList do
    IO.println said
  for line in response.printed.flatMap Output.lines do
    IO.println line
  for message in response.ending.message?.toList do
    IO.eprintln message
  return response.ending.code

end CodeSearch.Main

/-- The program. -/
def main (args : List String) : IO UInt32 := do
  match CodeSearch.Command.Request.ofArguments (.ofWords args) with
  | some request => CodeSearch.Main.carryOut request
  | none =>
    for line in CodeSearch.Command.usage do
      IO.eprintln line
    return 2
