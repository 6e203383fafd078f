import CodeSearch.Digest.Blake2b
import CodeSearch.Embedding.Basic
import CodeSearch.Text.Lower
import CodeSearch.Text.Utf8

/-!
Embedding by counting words.

The words of a text are its identifiers in lower case. A word counts in one component of the
vector, up or down; which one and in which direction follows from the digest of the word. The
counts are whole numbers, and the vector is the counts divided by their length.
-/
set_option autoImplicit false

namespace CodeSearch.Embedding

/-- Whether a character can begin an identifier. -/
def isTokenStart (c : Char) : Bool :=
  let n := c.toNat
  (0x41 ≤ n && n ≤ 0x5A) || (0x61 ≤ n && n ≤ 0x7A) || n == 0x5F

/-- Whether a character can go on an identifier. -/
def isTokenPart (c : Char) : Bool :=
  isTokenStart c || (0x30 ≤ c.toNat && c.toNat ≤ 0x39)

/-- One character more in front: the characters that could go on an identifier, and the identifiers
that are complete. -/
def tokenStep (c : Char) (cut : List Char × List (List Char)) : List Char × List (List Char) :=
  if isTokenPart c then (c :: cut.1, cut.2)
  else
    match cut.1.dropWhile fun c => !isTokenStart c with
    | [] => ([], cut.2)
    | token => ([], token :: cut.2)

/-- The identifiers in a text, from left to right, each as long as it can be. A run of letters,
digits and underscores holds at most one: what follows the digits in front. -/
def tokens (cs : List Char) : List (List Char) :=
  match cs.foldr tokenStep ([], []) with
  | (open_, rest) =>
    match open_.dropWhile fun c => !isTokenStart c with
    | [] => rest
    | token => token :: rest

/-- The place and direction in which a word counts. -/
structure Vote where
  digest : Nat
  up : Bool

/-- The vote of a word, read off its digest: the first four octets give the place, the fifth the
direction. -/
def voteOf (token : List Char) : Vote :=
  let octets := Digest.digest (Text.encode token)
  ⟨(octets.take 4).foldl (fun n b => 256 * n + b.toNat) 0, (octets.getD 4 0).toNat % 2 == 0⟩

/-- The counts after one vote more. -/
def countVote (counts : List Int) (v : Vote) : List Int :=
  counts.modify (v.digest % counts.length) (· + if v.up then 1 else -1)

/-- The counts of some words in a vector with `dimension` components. -/
def countsOf (vote : List Char → Vote) (dimension : Nat) (found : List (List Char)) : List Int :=
  (found.map vote).foldl countVote (List.replicate dimension 0)

/-- The length of a vector. -/
def norm (v : List Float) : Float :=
  (v.foldl (fun sum x => sum + x * x) 0.0).sqrt

/-- Below this a length counts as zero. -/
def leastNorm : Float := 1e-12

/-- The vector with length one in the same direction; a vector without length stays as it is. -/
def normalize (v : List Float) : List Float :=
  let length := norm v
  if length < leastNorm then v else v.map (· / length)

/-- Whether a dimension is no larger, in either direction, than a list can be long. -/
def isIndex (dimension : Int) : Bool :=
  -(Nat.pow 2 63 : Int) ≤ dimension && dimension < (Nat.pow 2 63 : Int)

/-- The vector of a text by counting words, as long as there is memory for it. Room for the counts is
made before the words are looked at, and the place of a count is found only when there is a word. -/
def hashEmbed (dimension : Int) (text : String) : Outcome :=
  if !isIndex dimension then
    .crash (.foreign "OverflowError" "cannot fit 'int' into an index-sized integer")
  else
    match tokens (Text.lowerFrom [] text.toList) with
    | [] => .failure .noTokens
    | found =>
      if dimension = 0 then .crash .noComponents
      else if dimension < 0 then .crash .lessThanNoComponents
      else .vector (normalize ((countsOf voteOf dimension.toNat found).map Float.ofInt))

/-- The key of the embedder that counts words. -/
def hashKey (dimension : Int) : String := s!"hash{dimension}"

/-- The embedder that counts words; it asks nobody. -/
def hashEmbedder {σ : Type} (dimension : Int) : Embedder σ where
  key := hashKey dimension
  dimension := dimension
  embed := fun text world => (hashEmbed dimension text, world)

end CodeSearch.Embedding
