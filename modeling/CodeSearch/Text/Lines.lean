/-!
Lines of a text: the parts between line feeds.

A text has one line more than it has line feeds, so the empty text has one empty line, and joining
the lines gives the text back. Files may end their lines in other ways; `unifyBreaks` turns these
into line feeds when a file is read.
-/
set_option autoImplicit false

namespace CodeSearch.Text

/-- One character more in front of a text that is already cut into lines. -/
def lineStep (c : Char) (cut : List Char × List (List Char)) : List Char × List (List Char) :=
  if c = '\n' then ([], cut.1 :: cut.2) else (c :: cut.1, cut.2)

/-- The parts of a text between its line feeds; never none. -/
def linesOf (cs : List Char) : List (List Char) :=
  let cut := cs.foldr lineStep ([], [])
  cut.1 :: cut.2

/-- The lines of a string. -/
def lines (s : String) : List String :=
  (linesOf s.toList).map String.ofList

/-- The lines put together again with a line feed between each two. -/
def joinLines (ls : List String) : String :=
  String.intercalate "\n" ls

/-- A carriage return, alone or with the line feed after it, becomes a line feed. -/
def unifyBreaks : List Char → List Char
  | [] => []
  | '\r' :: '\n' :: rest => '\n' :: unifyBreaks rest
  | '\r' :: rest => '\n' :: unifyBreaks rest
  | c :: rest => c :: unifyBreaks rest

end CodeSearch.Text
