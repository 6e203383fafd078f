import CodeSearch.Path
import CodeSearch.Text.Utf8
import CodeSearch.Value.Fault

/-!
A tree of files, directories and symbolic links.

A place in the tree is the steps to it from the root. Following a path goes through links, at most
forty of them, and ends at a place that is no link; nothing has to stand there. Everything that can
be asked of a file goes by such a path and fails with the reason that a system gives: each file and
each directory says what may be done with it.
-/
set_option autoImplicit false

namespace CodeSearch.Files

/-- What may be done with a file or a directory. To read a directory is to list the names in it, to
write it is to make or remove entries, and to search it is to get at what stands under a name. -/
structure Access where
  read : Bool := true
  write : Bool := true
  search : Bool := true
deriving DecidableEq, Repr

/-- What stands under a name. -/
inductive Item where
  | file (octets : List UInt8) (access : Access := {})
  | link (target : Path)
  | directory (entries : List (String × Item)) (access : Access := {})

instance : Inhabited Item := ⟨.directory []⟩

/-- What is wrong with a path. -/
inductive Trouble where
  | missing
  | denied
  | exists
  | notDirectory
  | isDirectory
  | nameTooLong
  | tooManyLinks
  /-- Any other reason that a system gives. -/
  | other (number : Nat) (words : String)
deriving DecidableEq, Repr

/-- The number of a trouble, and its wording. -/
def Trouble.numbered : Trouble → Nat × String
  | .missing => (2, "No such file or directory")
  | .denied => (13, "Permission denied")
  | .exists => (17, "File exists")
  | .notDirectory => (20, "Not a directory")
  | .isDirectory => (21, "Is a directory")
  | .nameTooLong => (36, "File name too long")
  | .tooManyLinks => (40, "Too many levels of symbolic links")
  | .other number words => (number, words)

/-- The wording of a trouble with a path. -/
def Trouble.message (t : Trouble) (path : Path) : String :=
  let (number, words) := t.numbered
  s!"[Errno {number}] {words}: {Text.quoted path.text}"

/-- A trouble as what breaks a program that does not expect it. -/
def Trouble.fault (t : Trouble) (path : Path) : Fault :=
  .system t.numbered.1 (t.message path)

/-- Whether a trouble on the way to something means that nothing is there. Any other one leaves that
open. -/
def Trouble.isAbsence : Trouble → Bool
  | .missing | .notDirectory | .tooManyLinks => true
  | _ => false

/-! ## Places -/

mutual

/-- What stands at a place. -/
def Item.at? : Item → List String → Option Item
  | item, [] => some item
  | .directory entries _, step :: rest => entryAt? entries step rest
  | _, _ :: _ => none

/-- What stands at a place below one of several entries. -/
def entryAt? : List (String × Item) → String → List String → Option Item
  | [], _, _ => none
  | (name, item) :: others, step, rest =>
    if name = step then item.at? rest else entryAt? others step rest

end

/-- The entries with one of them changed; one that is not there is made. -/
def changeEntry (step : String) (change : Option Item → Option Item) :
    List (String × Item) → List (String × Item)
  | [] =>
    match change none with
    | some made => [(step, made)]
    | none => []
  | entry :: others =>
    if entry.1 = step then
      match change (some entry.2) with
      | some changed => (step, changed) :: others
      | none => others
    else entry :: changeEntry step change others

/-- The tree with what stands at a place changed; directories on the way are made. A file or link
on the way gives way to a directory. -/
def changeAt (change : Option Item → Option Item) : List String → Option Item → Option Item
  | [], item => change item
  | step :: rest, item =>
    let (entries, access) := match item with
      | some (.directory entries access) => (entries, access)
      | _ => ([], {})
    some (.directory (changeEntry step (changeAt change rest) entries) access)

/-- The tree with an item put at a place. -/
def Item.put (root : Item) (place : List String) (item : Item) : Item :=
  (changeAt (fun _ => some item) place (some root)).getD root

/-- The tree without what stands at a place. -/
def Item.remove (root : Item) (place : List String) : Item :=
  if (root.at? place).isSome then (changeAt (fun _ => none) place (some root)).getD root else root

/-! ## Following paths -/

/-- How many links a path may lead through. -/
def linkLimit : Nat := 40

/-- How many octets a name may have. -/
def nameLimit : Nat := 255

/-- Why no step leads on from a place, if none does. -/
def Item.barred? (root : Item) (here : List String) (step : String) : Option Trouble :=
  match root.at? here with
  | none => some .missing
  | some (.directory _ access) =>
    if !access.search then some .denied
    else if nameLimit < step.utf8ByteSize then some .nameTooLong
    else none
  | some _ => some .notDirectory

/-- The place that some steps lead to from a directory. Steps up at the root stay there. Where a link
leads is left to `jump`, which is told the directory of the link, its target and the steps behind
it. -/
def followTo (root : Item)
    (jump : List String → Path → List String → Except Trouble (List String))
    (here : List String) : List String → Except Trouble (List String)
  | [] => .ok here
  | step :: rest =>
    match root.barred? here step with
    | some trouble => .error trouble
    | none =>
      if step = ".." then followTo root jump here.dropLast rest
      else
        match root.at? (here ++ [step]) with
        | some (.link target) => jump here target rest
        | _ => followTo root jump (here ++ [step]) rest

/-- The place that some steps lead to from a directory, through so many links at most. A link that
leaves the tree leads nowhere. -/
def follow (root : Item) : Nat → List String → List String → Except Trouble (List String)
  | 0 => followTo root fun _ _ _ => .error .tooManyLinks
  | links + 1 => followTo root fun here target rest =>
    if target.slashes = 0 then follow root links here (target.steps ++ rest) else .error .missing

/-- A tree of files with the path of its root. -/
structure Disk where
  base : Path
  root : Item

namespace Disk

/-- The steps of a path below the root of the disk, if it leads there. -/
def inside? (d : Disk) (p : Path) : Option (List String) :=
  if p.slashes = d.base.slashes && d.base.steps.isPrefixOf p.steps then
    some (p.steps.drop d.base.steps.length)
  else none

/-- The place that a path leads to. -/
def locate (d : Disk) (p : Path) : Except Trouble (List String) :=
  match d.inside? p with
  | some steps => follow d.root linkLimit [] steps
  | none => .error .missing

/-- What a path leads to. -/
def lookup (d : Disk) (p : Path) : Except Trouble Item := do
  let place ← d.locate p
  match d.root.at? place with
  | some item => .ok item
  | none => .error .missing

/-- Whether a path leads to something. -/
def has (d : Disk) (p : Path) : Except Trouble Bool :=
  match d.lookup p with
  | .ok _ => .ok true
  | .error trouble => if trouble.isAbsence then .ok false else .error trouble

/-- Whether a path leads to a directory. -/
def isDirectory (d : Disk) (p : Path) : Except Trouble Bool :=
  match d.lookup p with
  | .ok (.directory _ _) => .ok true
  | .ok _ => .ok false
  | .error trouble => if trouble.isAbsence then .ok false else .error trouble

/-- The names in a directory. -/
def names (d : Disk) (p : Path) : Except Trouble (List String) :=
  match d.lookup p with
  | .ok (.directory entries access) =>
    if access.read then .ok (entries.map (·.1)) else .error .denied
  | .ok _ => .error .notDirectory
  | .error trouble => .error trouble

/-- The octets of a file. -/
def read (d : Disk) (p : Path) : Except Trouble (List UInt8) :=
  match d.lookup p with
  | .ok (.file octets access) => if access.read then .ok octets else .error .denied
  | .ok _ => .error .isDirectory
  | .error trouble => .error trouble

/-- The size of a file in octets. -/
def size (d : Disk) (p : Path) : Except Trouble Nat :=
  match d.lookup p with
  | .ok (.file octets _) => .ok octets.length
  | .ok _ => .error .isDirectory
  | .error trouble => .error trouble

/-- The path to the same place without links and without steps up. -/
def resolve (d : Disk) (p : Path) : Except Trouble Path :=
  (d.locate p).map fun place => ⟨d.base.slashes, d.base.steps ++ place⟩

/-- The disk with an item put at a place. -/
def putAt (d : Disk) (place : List String) (item : Item) : Disk :=
  { d with root := d.root.put place item }

/-- The disk with an item put at the place of a path. -/
def put (d : Disk) (p : Path) (item : Item) : Disk :=
  match d.inside? p with
  | some place => d.putAt place item
  | none => d

/-- The disk without what stands at the place of a path. -/
def remove (d : Disk) (p : Path) : Disk :=
  match d.inside? p with
  | some place => { d with root := d.root.remove place }
  | none => d

/-! ## Making directories and files -/

/-- A trouble with the path that it is about. -/
structure Obstacle where
  trouble : Trouble
  path : Path

/-- The wording of an obstacle. -/
def Obstacle.message (o : Obstacle) : String := o.trouble.message o.path

/-- Whether entries may be made in the directory at a place. -/
def writable (d : Disk) (place : List String) : Bool :=
  match d.root.at? place with
  | some (.directory _ access) => access.write
  | _ => false

/-- One directory more, in a directory that is there. The entry of its name must be free; a link that
leads nowhere takes it as well. -/
def makeDirectory (d : Disk) (p : Path) : Except Trouble Disk :=
  match d.inside? p with
  | none => .ok d
  | some [] => .error .exists
  | some (_ :: _) =>
    match d.locate p.parent with
    | .error trouble => .error trouble
    | .ok above =>
      match d.root.barred? above p.name with
      | some trouble => .error trouble
      | none =>
        if p.name = ".." || (d.root.at? (above ++ [p.name])).isSome then .error .exists
        else if d.writable above then .ok (d.putAt (above ++ [p.name]) (.directory []))
        else .error .denied

/-- A disk on which something was to be made, and what was in the way. What was made before that
stays. -/
structure Made where
  disk : Disk
  obstacle? : Option Obstacle := none

/-- One directory more; one that is there already will do. -/
def makeOne (d : Disk) (p : Path) : Made :=
  match d.makeDirectory p with
  | .ok made => { disk := made }
  | .error trouble =>
    match d.isDirectory p with
    | .ok true => { disk := d }
    | .ok false => ⟨d, some ⟨trouble, p⟩⟩
    | .error worse => ⟨d, some ⟨worse, p⟩⟩

/-- A directory with so many of the directories above it, as far as they are missing. -/
def makeDirectories (d : Disk) (p : Path) : Nat → Made
  | 0 => d.makeOne p
  | above + 1 =>
    match d.makeDirectory p with
    | .error .missing =>
      let prepared := d.makeDirectories p.parent above
      if prepared.obstacle?.isSome then prepared else prepared.disk.makeOne p
    | _ => d.makeOne p

/-- A directory with all directories on the way to it. -/
def ensureDirectory (d : Disk) (p : Path) : Made :=
  d.makeDirectories p p.steps.length

/-- A file with new content, in a directory that is there. A file that is there already keeps what may
be done with it. -/
def write (d : Disk) (p : Path) (octets : List UInt8) : Except Obstacle Disk :=
  match d.locate p with
  | .error trouble => .error ⟨trouble, p⟩
  | .ok place =>
    match d.root.at? place with
    | some (.file _ access) =>
      if access.write then .ok (d.putAt place (.file octets access)) else .error ⟨.denied, p⟩
    | some _ => .error ⟨.isDirectory, p⟩
    | none =>
      if d.writable place.dropLast then .ok (d.putAt place (.file octets)) else .error ⟨.denied, p⟩

end Disk

end CodeSearch.Files
