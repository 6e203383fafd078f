import CodeSearch.Files.Tree
import CodeSearch.Tree.Language

/-!
The files of a directory that can be indexed.

The walk goes through a directory in the order of the names, and into directories as it comes to
them, so the files come in the order of their paths. It goes through links as well; that it ends
is due to the depth. Directories with some names are not entered, and files above a size are left
out. A directory that cannot be listed and a file whose size cannot be read are passed over; an entry
of which it cannot be told whether it is a directory stops the walk.
-/
set_option autoImplicit false

namespace CodeSearch.Files

/-- How far a walk goes. -/
structure WalkLimits where
  /-- How many directories may lie between the start and a file. -/
  depth : Int := 10
  /-- The size in octets that a file may have. -/
  size : Int := 100000
  /-- The names of the directories that are not entered. -/
  skip : List String

/-- What a walk comes upon. -/
inductive Sighting where
  | file (p : Path)
  /-- A directory that cannot be listed. -/
  | unlisted (p : Path) (trouble : Trouble)

/-- Whether the ending of a file's name is that of a language. -/
def isSource (p : Path) : Bool :=
  (Tree.Language.ofEnding? (Path.endingOf p.name)).isSome

/-- The path of a name in a directory. -/
def entryPath (directory : Path) (name : String) : Path :=
  ⟨directory.slashes, directory.steps ++ [name]⟩

/-- A file system, as far as a walk asks it something. A path may lead anywhere: two paths to one
directory, or one around in a circle. Not of every path can it be told whether it leads to a directory,
not every directory can be listed, and not of every file can the size be read. -/
structure FileSystem where
  isDirectory : Path → Except Trouble Bool
  names : Path → Except Trouble (List String)
  size : Path → Except Trouble Nat

/-- What a walk has come upon, and what has stopped it, if anything has. -/
structure Walked where
  seen : List Sighting := []
  stopped? : Option Disk.Obstacle := none

/-- What comes up at one entry after the other, up to the one at which the walk is stopped. -/
def Walked.along (look : Path → Walked) : List Path → Walked
  | [] => {}
  | entry :: rest =>
    let here := look entry
    if here.stopped?.isSome then here
    else
      let behind := Walked.along look rest
      { behind with seen := here.seen ++ behind.seen }

namespace FileSystem

variable (s : FileSystem) (limits : WalkLimits)

/-- Whether a file is small enough; one whose size cannot be read is not. -/
def fits (p : Path) : Bool :=
  match s.size p with
  | .ok size => size ≤ limits.size
  | .error _ => false

/-- What comes up at an entry of a directory: all that is below it if it is a directory that is
entered, and itself if it is a file that counts. -/
def lookAt (below : Path → Walked) (entry : Path) : Walked :=
  match s.isDirectory entry with
  | .error trouble => { stopped? := some ⟨trouble, entry⟩ }
  | .ok true => if limits.skip.contains entry.name then {} else below entry
  | .ok false => if isSource entry && s.fits limits entry then { seen := [.file entry] } else {}

/-- All that comes up in a directory at some depth, and below it. -/
def walkFrom (depth : Int) (directory : Path) : Walked :=
  if limits.depth < depth then {}
  else
    match s.names directory with
    | .error trouble => { seen := [.unlisted directory trouble] }
    | .ok names =>
      Walked.along (s.lookAt limits fun entry => walkFrom (depth + 1) entry)
        ((names.mergeSort fun a b => decide (a ≤ b)).map (entryPath directory))
termination_by (limits.depth + 1 - depth).toNat
decreasing_by omega

/-- All that comes up in a directory. -/
def walk (start : Path) : Walked :=
  s.walkFrom limits 0 start

end FileSystem

/-- A disk as a file system. -/
def Disk.fileSystem (d : Disk) : FileSystem :=
  ⟨d.isDirectory, d.names, d.size⟩

/-- All that comes up in a directory of a disk. -/
def walk (d : Disk) (limits : WalkLimits) (start : Path) : Walked :=
  d.fileSystem.walk limits start

/-- The files among what came up. -/
def Sighting.file? : Sighting → Option Path
  | .file p => some p
  | .unlisted _ _ => none

/-- The warning for what came up, if there is one. -/
def Sighting.warning? : Sighting → Option String
  | .file _ => none
  | .unlisted p trouble => some s!"Cannot list {p.text}: {trouble.message p}"

/-- The files that a walk has come upon. -/
def Walked.files (w : Walked) : List Path :=
  w.seen.filterMap Sighting.file?

/-- The warnings of a walk. -/
def Walked.warnings (w : Walked) : List String :=
  w.seen.filterMap Sighting.warning?

end CodeSearch.Files
