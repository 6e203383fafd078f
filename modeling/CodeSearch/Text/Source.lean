import CodeSearch.Text.Lines
import CodeSearch.Text.Utf8

/-!
The text of a file with its octets.

Syntax trees point into a text by octets, readers by lines and columns; a source answers both. Its
octets are those of its text by construction.
-/
set_option autoImplicit false

namespace CodeSearch.Text

/-- A text with the octets that spell it. -/
structure Source where
  text : List Char
  octets : Array UInt8
  octets_eq : octets = (encode text).toArray := by rfl

namespace Source

/-- The source of a text. -/
def ofText (text : List Char) : Source :=
  ⟨text, (encode text).toArray, rfl⟩

/-- The lines of the text. -/
def lines (s : Source) : List String :=
  (linesOf s.text).map String.ofList

/-- The text that the octets from `start` up to `stop` spell, with U+FFFD where they cut through a
character. -/
def slice (s : Source) (start stop : Nat) : String :=
  String.ofList (decodeLenient (s.octets.extract start stop).toList)

/-- How many lines end before an octet. -/
def rowAt (s : Source) (start : Nat) : Nat :=
  (s.octets.extract 0 start).count 10

/-- How many octets stand between the last end of a line before an octet and that octet. -/
def columnAt (s : Source) (start : Nat) : Nat :=
  ((s.octets.extract 0 start).toList.reverse.takeWhile (· ≠ 10)).length

/-- The number of the line of an octet, counted from one. -/
def lineAt (s : Source) (start : Nat) : Nat :=
  s.rowAt start + 1

end Source

end CodeSearch.Text
