import CodeSearch.Files.Tree
import CodeSearch.Json.Parser
import CodeSearch.Record.Code
import CodeSearch.Text.Lines
import CodeSearch.Tree.Language

/-!
Records of files, and the disks that they make.

The record of a file gives its path and its content: a text, octets in hexadecimal digits, or a
size, which is filled with one octet. It may also be a directory, or a link. With a text may go
its syntax tree.
-/
set_option autoImplicit false

namespace CodeSearch.Record

open CodeSearch.Files (Disk Item)
open CodeSearch.Tree (Language Node)

/-- The octets that pairs of hexadecimal digits spell. -/
def hexOctets : List Char → List UInt8
  | high :: low :: rest =>
    let digit (c : Char) : Nat := (Json.hexDigit? c).getD 0
    UInt8.ofNat (digit high * 16 + digit low) :: hexOctets rest
  | _ => []

/-- The content of a file. -/
def octetsOf (v : Value) : List UInt8 :=
  match textAt? v "text", textAt? v "hex" with
  | some s, _ => Text.encode s.toList
  | none, some digits => hexOctets digits.toList
  | none, none => List.replicate (countAt v "size") 0x78

/-- What the record of a file puts on a disk. -/
def toItem (v : Value) : Item :=
  if flagAt v "dir" then .directory []
  else
    match textAt? v "link" with
    | some target => .link (Path.ofString target)
    | none => .file (octetsOf v)

/-- The place of a new file, with the links on the way to it followed. -/
def placeOf (d : Disk) (p : Path) : Path :=
  match d.resolve p.parent with
  | .ok found => ⟨found.slashes, found.steps ++ [p.name]⟩
  | .error _ => p

/-- The disk with the file of a record below a directory. A directory that is there stays as it
is. -/
def withFile (base : Path) (d : Disk) (v : Value) : Disk :=
  let p := base.below (textAt v "path")
  match toItem v, d.isDirectory p with
  | .directory _ _, .ok true => d
  | made, _ => d.put (placeOf d p) made

/-- The disk with a directory that holds the files of some records. -/
def withFiles (base : Path) (d : Disk) (files : List Value) : Disk :=
  let start := match d.isDirectory base with
    | .ok true => d
    | _ => d.put base (.directory [])
  files.foldl (withFile base) start

/-! ## Trees of texts -/

/-- The trees of texts, each with the language of its file. -/
abbrev Trees := List (Option Language × List Char × Node)

/-- The tree of a text in a language; one for the same text in another language will do. -/
def treeOf? (trees : Trees) (language : Language) (text : List Char) : Option Node :=
  match trees.find? fun entry => entry.1 == some language && entry.2.1 == text with
  | some entry => some entry.2.2
  | none => (trees.find? fun entry => entry.2.1 == text).map (·.2.2)

/-- The trees of the files of some records. They belong to the texts as they are read from a disk.
-/
def treesOf (files : List Value) : Trees :=
  files.filterMap fun file =>
    match field? file "tree", Text.decode (octetsOf file) with
    | some tree, .ok text =>
      some (Language.ofPath? (textAt file "path"), Text.unifyBreaks text, toNode tree)
    | _, _ => none

end CodeSearch.Record
