/-!
File paths as text and as steps.

A path is the slashes it begins with and its steps, the names between slashes. Empty steps and
steps that stay where they are do not count; steps that go up do, since what they mean depends
on links. Exactly two slashes in front are kept apart from one; three or more are one.
-/
set_option autoImplicit false

namespace CodeSearch

/-- A path: how many slashes it begins with, at most two, and its steps. -/
structure Path where
  slashes : Nat
  steps : List String
deriving DecidableEq, Repr

namespace Path

/-- One character more in front of a text that is already cut at its slashes. -/
def cutStep (c : Char) (cut : List Char × List (List Char)) : List Char × List (List Char) :=
  if c = '/' then ([], cut.1 :: cut.2) else (c :: cut.1, cut.2)

/-- The steps that a text names. -/
def stepsOf (cs : List Char) : List String :=
  let cut := cs.foldr cutStep ([], [])
  ((cut.1 :: cut.2).map String.ofList).filter fun step => step != "" && step != "."

/-- How many slashes count in front of a text. -/
def slashesOf (cs : List Char) : Nat :=
  match (cs.takeWhile (· == '/')).length with
  | 0 => 0
  | 2 => 2
  | _ => 1

/-- The path that a text spells. -/
def ofString (s : String) : Path :=
  ⟨slashesOf s.toList, stepsOf s.toList⟩

/-- The text of a path; that of the path without steps is a point. -/
def text (p : Path) : String :=
  let steps := "/".intercalate p.steps
  if p.slashes = 0 && p.steps.isEmpty then "."
  else String.ofList (List.replicate p.slashes '/') ++ steps

/-- The last step; empty if there is none. -/
def name (p : Path) : String :=
  p.steps.getLast?.getD ""

/-- The path below this one that a text without a leading slash spells. -/
def below (p : Path) (s : String) : Path :=
  ⟨p.slashes, p.steps ++ stepsOf s.toList⟩

/-- The path without its last step. -/
def parent (p : Path) : Path :=
  ⟨p.slashes, p.steps.dropLast⟩

/-- The ending of a name: from its last point on, if characters stand before and behind it. -/
def endingOf (name : String) : String :=
  let reversed := name.toList.reverse
  let tail := reversed.takeWhile (· ≠ '.')
  match reversed.drop tail.length with
  | [] => ""
  | [_] => ""
  | point :: _ => if tail.isEmpty then "" else String.ofList (point :: tail.reverse)

/-- The ending of the last step of a path. -/
def ending (s : String) : String :=
  endingOf (ofString s).name

/-- Why a path that begins with a tilde has no meaning. -/
inductive HomeFault where
  | unknown
deriving DecidableEq, Repr

/-- The wording of a cause. -/
def HomeFault.message : HomeFault → String
  | .unknown => "Could not determine home directory."

/-- The path with a first step that begins with a tilde put into words: the home directory of the
account named behind the tilde, where no name means one's own. -/
def expandHome (homeOf : String → Option String) (p : Path) : Except HomeFault Path :=
  match p.slashes, p.steps with
  | 0, first :: rest =>
    match first.toList with
    | '~' :: account =>
      match homeOf (String.ofList account) with
      | some home =>
        let base := ofString home
        .ok ⟨base.slashes, base.steps ++ rest⟩
      | none => .error .unknown
    | _ => .ok p
  | _, _ => .ok p

end Path

end CodeSearch
