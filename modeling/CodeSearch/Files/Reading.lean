import CodeSearch.Chunk.Extraction
import CodeSearch.Files.Walk
import CodeSearch.Text.Lines

/-!
From a file on a disk to its chunks.
-/
set_option autoImplicit false

namespace CodeSearch.Files

open CodeSearch.Tree (Parsers Skipped Reported)

/-- The wording of octets that are no text. -/
def encodingTrouble (f : Text.Utf8Fault) : String :=
  let reason := match f.reason with
    | .start => "invalid start byte"
    | .continuation => "invalid continuation byte"
    | .ended => "unexpected end of data"
  let octets :=
    if f.length ≤ 1 then
      "byte 0x" ++ String.ofList (Text.hex 2 f.octet.toNat) ++ s!" in position {f.position}"
    else s!"bytes in position {f.position}-{f.position + f.length - 1}"
  s!"'utf-8' codec can't decode {octets}: {reason}"

/-- The text of a file with line feeds alone at the ends of its lines, or what stands in the way. -/
def readText (d : Disk) (p : Path) : Except String (List Char) :=
  match d.read p with
  | .error trouble => .error (trouble.message p)
  | .ok octets =>
    match Text.decode octets with
    | .error fault => .error (encodingTrouble fault)
    | .ok text => .ok (Text.unifyBreaks text)

/-- The path of a file below a directory. -/
def relativeText (root p : Path) : String :=
  (⟨0, p.steps.drop root.steps.length⟩ : Path).text

/-- What one file comes to: its chunks, or why there are none. -/
def fileOutcome (d : Disk) (parsers : Parsers) (radius : Int) (root p : Path) :
    Except Fault (Except Skipped (List Chunk)) :=
  let name := relativeText root p
  match readText d p with
  | .error reason => .ok (.error ⟨name, "unreadable: " ++ reason⟩)
  | .ok text =>
    (parsers.outcome name text).map fun found => found.map (Chunk.ofParsed radius)

/-- The warnings that one file gives about parsers. -/
def fileWarnings (d : Disk) (parsers : Parsers) (reported : Reported) (root p : Path) :
    List String × Reported :=
  match readText d p with
  | .error _ => ([], reported)
  | .ok _ => parsers.warnings reported (relativeText root p)

/-- The text of a file as it is given to a parser; none if it is not read, or if no parser takes
it. -/
def parsedText? (d : Disk) (parsers : Parsers) (root p : Path) : Option String :=
  match readText d p, parsers.supports (relativeText root p) with
  | .ok text, .ok true => some (String.ofList text)
  | _, _ => none

end CodeSearch.Files
