import CodeSearch.Chunk.Basic
import CodeSearch.Cut
import CodeSearch.Decimal.Binary
import CodeSearch.Search.Ranking
import CodeSearch.Text.Blank
import CodeSearch.Text.Lower
import CodeSearch.Text.Occurrence

/-!
Finding chunks by words.

The similarity of a chunk is the share of the words of the question that occur in its name, text
or context, capitals or not. A word occurs wherever its characters stand one after the other, also
inside a longer word. A chunk without any of the words is not found.
-/
set_option autoImplicit false

namespace CodeSearch.Search

/-- A chunk as words are looked for in it. -/
structure Document where
  id : String
  kind : String
  /-- Name, text and context in lower case. -/
  text : List Char

/-- The document of a chunk. -/
def Document.ofChunk (c : Chunk) : Document where
  id := c.id
  kind := c.kind
  text := Text.lowerFrom [] (c.name ++ " " ++ c.text ++ " " ++ c.context).toList

/-- The words of a question, in lower case; a word that comes twice counts twice. -/
def termsOf (question : String) : List (List Char) :=
  Text.words (Text.lowerFrom [] question.toList)

/-- How many of the words occur in a document. -/
def Document.hits (terms : List (List Char)) (d : Document) : Nat :=
  terms.countP fun term => Text.contains term d.text

/-- Whether a document is of the kind that is asked for; the empty kind stands for all kinds. -/
def Document.isOfKind (kind : Option String) (d : Document) : Bool :=
  match kind with
  | none => true
  | some kind => kind.isEmpty || d.kind == kind

/-- The match of a document, if one of the words occurs in it. -/
def Document.match? (terms : List (List Char)) (d : Document) : Option Match :=
  match d.hits terms with
  | 0 => none
  | hits => some ⟨.text d.id, Decimal.ratio hits terms.length⟩

/-- All chunks of an index as documents, in their order. -/
structure Lexical where
  documents : List Document

/-- The documents of some chunks. -/
def Lexical.ofChunks (chunks : List Chunk) : Lexical :=
  ⟨chunks.map Document.ofChunk⟩

/-- The best matches for a question up to a limit. -/
def Lexical.query (store : Lexical) (question : String) (kind : Option String) (limit : Int) :
    List Match :=
  let terms := termsOf question
  Cut.upTo limit <| bestFirst Match.similarity <|
    (store.documents.filter (Document.isOfKind kind)).filterMap (Document.match? terms)

end CodeSearch.Search
