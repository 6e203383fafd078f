import CodeSearch.Engine.Inquiry

/-!
Explanations out of what a question finds.

What was found is put into a prompt for the explainer. Without an explainer, and if it fails, what
was found is given as it is, with a note.
-/
set_option autoImplicit false

namespace CodeSearch.Engine

open CodeSearch.Index (Generation NotIndexed)
open CodeSearch.Search (Query Result)

variable {σ : Type}

/-- The note that there is no explainer. -/
def noExplainer : String :=
  "Note: no explanation model is configured. " ++
  "Set OPENAI_API_KEY or configure [llm] in config.toml for detailed explanations."

/-- The prompt for an explanation of what was found. -/
def explanationPrompt (question results : String) : String :=
  "Based on the following code search results, explain the answer to the question: \"" ++ question ++
  "\"\n\nSearch results:\n" ++ results ++
  "\n\nCover:\n1. What the relevant code does\n2. How it relates to the question\n" ++
  "3. Key technical details and patterns\n4. Suggestions for usage or improvement\n\n" ++
  "Keep the explanation technical but accessible."

/-- The prompt for an answer out of what was found and what the code is made of. -/
def insightPrompt (question results parts : String) (chunks : Nat) : String :=
  "You are an expert code analyst. Using the search results and structure summary below, " ++
  "answer the question: \"" ++ question ++ "\"\n\nSearch results:\n" ++ results ++
  "\n\nCode structure:\n" ++ parts ++ s!"\n\nChunks indexed: {chunks}\n\n" ++
  "Give a direct answer, reference concrete code from the results, and note architectural " ++
  "insights and possible improvements."

/-- What is given for a prompt, made from what was found: the explanation, or what was found with
a note. `failing` begins the warning about a failure, and `failed` the note. -/
def explained (e : Engine σ) (found prompt failing failed : String) :
    Except InquiryFault Value × Engine σ :=
  match e.explainer with
  | none => (.ok (.text (found ++ "\n\n" ++ noExplainer)), e)
  | some explainer =>
    let (outcome, world) := explainer prompt e.world
    let e := { e with world := world }
    match outcome with
    | .answer v => (.ok v, e)
    | .failure reason =>
      (.ok (.text (found ++ "\n\n" ++ failed ++ reason.message)), e.warn [failing ++ reason.message])
    | .crash fault => (.error (.broken fault), e)

/-- An explanation of the chunks that answer a question. -/
def explain (interrupt : Moment → Engine σ → Engine σ) (e : Engine σ) (question : Option String)
    (withContext : Bool) : Except InquiryFault Value × Engine σ :=
  match e.answered interrupt { text := question, threshold := .real 0.6, limit := 5 } with
  | (.error fault, after) => (.error fault, after)
  | (.ok (_, results), after) =>
    let found := Search.resultsText results withContext
    after.explained found (explanationPrompt (question.getD "") found)
      "Explanation failed: " "Warning: explanation failed: "

/-- An answer out of more chunks, and of what the code is made of. -/
def insight (interrupt : Moment → Engine σ → Engine σ) (e : Engine σ) (question : Option String) :
    Except InquiryFault Value × Engine σ :=
  match e.answered interrupt { text := question, threshold := .real 0.5, limit := 10 } with
  | (.error fault, after) => (.error fault, after)
  | (.ok (g, results), after) =>
    let found := Search.resultsText results false
    let made := (Analysis.patterns g.chunks).text
    after.explained (found ++ "\n\n" ++ made)
      (insightPrompt (question.getD "") found made g.chunks.length)
      "Analysis failed: " "Warning: analysis failed: "

/-! ## The code as a whole -/

/-- What the code is made of. -/
def patterns (e : Engine σ) : Except NotIndexed Analysis.Patterns :=
  e.ready.map fun g => Analysis.patterns g.chunks

/-- Which names need which. -/
def dependencyGraph (e : Engine σ) : Except NotIndexed (List (String × Text.NameSet)) :=
  e.ready.map fun g => Analysis.dependencyGraph g.chunks

/-- How much of the code is embedded. -/
def embeddingReport (e : Engine σ) : Except NotIndexed Analysis.EmbeddingReport :=
  e.ready.map fun g => Analysis.embeddingReport g.chunks

/-- The chunks of a name. -/
def findSymbol (e : Engine σ) (name : String) (kind : Option String) :
    Except NotIndexed (List Chunk) :=
  e.ready.map fun g => Analysis.findSymbol g.chunks name kind

end CodeSearch.Engine
