import CodeSearch.Chunk.Basic
import CodeSearch.Summary
import CodeSearch.Text.Blank
import CodeSearch.Text.Lines

/-!
Answers to a question, and their text.
-/
set_option autoImplicit false

namespace CodeSearch.Search

/-- A chunk that answers a question. -/
structure Result where
  chunk : Chunk
  similarity : Float
  context : String
  backend : Backend

/-- At most this many characters of a chunk's text are shown. -/
def snippetLength : Nat := 200

/-- The beginning of a text, with dots behind it if it goes on. -/
def snippet (text : String) : String :=
  let cs := text.toList
  String.ofList (cs.take snippetLength) ++ (if snippetLength < cs.length then "..." else "")

/-- The lines that show a result. -/
def Result.lines (withContext : Bool) (r : Result) : List String :=
  [ s!"{r.chunk.name} ({r.chunk.kind})",
    s!"   File: {r.chunk.path}:{r.chunk.line}",
    s!"   Similarity: {Decimal.percent r.similarity}",
    s!"   Content: {snippet r.chunk.text}" ] ++
  (if withContext && !r.context.isEmpty then
    "   Context:" :: (Text.lines r.context).map fun line => "      " ++ line
  else []) ++ [""]

/-- Results as text, with the lines around each chunk if they are asked for. -/
def resultsText (results : List Result) (withContext : Bool) : String :=
  if results.isEmpty then "No matching code found."
  else
    Text.trimRight <| Text.joinLines <|
      "Search results:" :: "" :: results.flatMap (Result.lines withContext)

end CodeSearch.Search
