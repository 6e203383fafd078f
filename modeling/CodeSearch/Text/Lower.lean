import CodeSearch.Text.Ranges
import CodeSearch.Text.CaseTable

/-!
Lower-casing of whole texts, by the full Unicode mapping.

Every character is mapped on its own, with two exceptions. The capital dotted I becomes two
characters, and the capital sigma is written in its final form at the end of a word: after a letter
and not before one, where marks and apostrophes on either side are looked through. Because of the
second exception the lower-case form of a part of a text need not be a part of the lower-case form
of the text.
-/
set_option autoImplicit false

namespace CodeSearch.Text

/-- The shift to the lower-case form, from the first run that holds the code point. -/
def lowerShift : List (Nat × Nat × Nat × Int) → Nat → Int
  | [], _ => 0
  | (first, last, step, shift) :: rest, n =>
    if n < first then 0
    else if n ≤ last && (n - first) % step == 0 then shift
    else lowerShift rest n

/-- The lower-case form of a character that has a form of one character. -/
def lowerChar (c : Char) : Char :=
  Char.ofNat (c.toNat + lowerShift lowerRuns c.toNat).toNat

/-- Whether the nearest character that is not looked through is a letter with case. -/
def nextIsCased (cs : List Char) : Bool :=
  match cs.dropWhile (fun c => inRanges ignorableRanges c.toNat) with
  | [] => false
  | c :: _ => inRanges casedRanges c.toNat

/-- Capital sigma and its two lower-case forms. -/
def capitalSigma : Char := Char.ofNat 0x3A3

/-- The lower-case form of one character in its place: `before` is what precedes it, nearest first,
and `after` what follows. -/
def lowerAt (before : List Char) (c : Char) (after : List Char) : List Char :=
  if c.toNat = 0x130 then [Char.ofNat 0x69, Char.ofNat 0x307]
  else if c = capitalSigma then
    [Char.ofNat (if nextIsCased before && !nextIsCased after then 0x3C2 else 0x3C3)]
  else [lowerChar c]

/-- The lower-case form of the rest of a text, given what precedes it, nearest first. -/
def lowerFrom (before : List Char) : List Char → List Char
  | [] => []
  | c :: after => lowerAt before c after ++ lowerFrom (c :: before) after

/-- The lower-case form of a text. -/
def lower (s : String) : String :=
  String.ofList (lowerFrom [] s.toList)

end CodeSearch.Text
