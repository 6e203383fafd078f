import CodeSearch.Embedding.Hash
import CodeSearch.Text.Occurrence

/-!
Embedding by a script: words are counted, unless the script says that a text breaks the embedder,
is refused, or has a given vector. The first texts may be refused as well, as if the service were
not there yet.
-/
set_option autoImplicit false

namespace CodeSearch.Embedding

/-- What a script says. A text is known by a part of it; the empty part stands for no text. -/
structure Script where
  dimension : Int
  /-- What goes wrong where the embedder breaks. -/
  fault : Fault
  /-- The reason of a refusal, and that of a refusal of one of the first texts. -/
  refusal : String
  absence : String
  breaksOn : String := ""
  refuses : String := ""
  /-- How many of the next texts are refused. -/
  missing : Nat := 0
  vectors : List (String × List Float) := []
  /-- How many texts there have been. -/
  calls : Nat := 0

namespace Script

/-- Whether a part that is not empty occurs in a text. -/
def marks (part text : String) : Bool :=
  !part.isEmpty && Text.contains part.toList text.toList

/-- What a text comes to once it is neither broken on nor refused. -/
def answer (s : Script) (text : String) : Outcome :=
  match s.vectors.find? fun given => Text.contains given.1.toList text.toList with
  | some given => .vector given.2
  | none => hashEmbed s.dimension text

/-- What a text comes to, and the script after it. -/
def embed (text : String) (s : Script) : Outcome × Script :=
  let s := { s with calls := s.calls + 1 }
  if marks s.breaksOn text then (.crash s.fault, s)
  else if marks s.refuses text then (.failure (.refused s.refusal), s)
  else
    match s.missing with
    | 0 => (s.answer text, s)
    | missing + 1 => (.failure (.refused s.absence), { s with missing := missing })

end Script

end CodeSearch.Embedding
