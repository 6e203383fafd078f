import CodeSearch.Analysis
import CodeSearch.Config.Settings
import CodeSearch.Cut
import CodeSearch.Search.Result

/-!
What commands print.

Lines are in a markup with tags in brackets; tables and panels are laid out by whoever shows them.
Each function here makes the whole output on one subject.
-/
set_option autoImplicit false

namespace CodeSearch.Command

/-- Something printed. -/
inductive Output where
  | line (markup : String)
  | table (title : String) (columns : List String) (rows : List (List String))
  | panel (title : String) (body : Value)

/-- The line about an error. -/
def errorLine (message : String) : Output :=
  .line ("[red]Error:[/red] " ++ message)

/-- A summary, with a line for each file that could not be used. -/
def summaryOutput (s : Summary) : List Output :=
  .table "Index summary" ["Field", "Value"] [
    ["Path", s.path],
    ["Files", toString s.files],
    ["Chunks", toString s.chunks],
    ["Embedded", s!"{s.embedded} ({Decimal.percent s.coverage})"],
    ["Backend", s.backend.name],
    ["Parse failures", toString s.skipped.length]] ::
  s.skipped.map fun f => .line s!"  [yellow]skipped[/yellow] {f.path}: {f.reason}"

/-- The row of an answer. -/
def resultRow (r : Search.Result) : List String :=
  [ Decimal.percent r.similarity, r.chunk.kind, r.chunk.name, s!"{r.chunk.path}:{r.chunk.line}",
    r.backend.name ]

/-- Answers to a question. -/
def resultsOutput (results : List Search.Result) : List Output :=
  if results.isEmpty then [.line "[yellow]No matching code found.[/yellow]"]
  else
    [.table s!"{results.length} result(s)" ["Score", "Kind", "Name", "Location", "Backend"]
      (results.map resultRow)]

/-- What the code is made of, and how much of it is embedded. -/
def patternsOutput (p : Analysis.Patterns) (r : Analysis.EmbeddingReport) : List Output := [
  .table "Code structure" ["Kind", "Count"]
    (Chunk.kinds.map fun kind => [kind, toString ((p.kinds.lookup kind).getD 0)]),
  .table "Complexity distribution" ["Range", "Chunks"]
    (p.histogram.map fun range => [range.1, toString range.2]),
  .line s!"High complexity functions: [bold]{p.complex}[/bold]",
  .line s!"Embedding coverage: {r.embedded}/{r.total} ({Decimal.percent r.coverage})"]

/-! ## Dependencies -/

/-- What a name needs, as far as it is shown: up to a limit, with a note on how many more there
are. -/
def targetsOutput (limit : Int) (name : String) (targets : List String) : List Output :=
  [.line s!"[bold]{name}[/bold]"] ++
  (Cut.upTo limit targets).map (fun target => .line ("  ├─ " ++ target)) ++
  (if limit < targets.length then [.line s!"  └─ ... and {targets.length - limit} more"] else [])

/-- The names that a graph is shown for: the one that is asked for, or all of them in order. -/
def shownNames (graph : List (String × Text.NameSet)) (symbol : Option String) : List String :=
  match symbol.filter fun name => !name.isEmpty with
  | some name => [name]
  | none => (Text.NameSet.ofList (graph.map (·.1))).names

/-- What a name needs; nothing if the graph does not have it. -/
def targetsOf (graph : List (String × Text.NameSet)) (name : String) : List String :=
  ((graph.lookup name).map (·.names)).getD []

/-- A graph of names; names that need nothing are left out. -/
def graphOutput (graph : List (String × Text.NameSet)) (symbol : Option String) (limit : Int) :
    List Output :=
  let shown := (shownNames graph symbol).filter fun name => !(targetsOf graph name).isEmpty
  if shown.isEmpty then [.line "[yellow]No dependencies found.[/yellow]"]
  else shown.flatMap fun name => targetsOutput limit name (targetsOf graph name)

/-! ## Settings -/

/-- A choice in words: the provider and the model. -/
def choiceText (c : Service.Choice) : String :=
  Text.trim s!"{c.provider} {c.model}"

/-- Settings, with the file that they come from. -/
def settingsOutput (file : Path) (s : Config.Settings) : Output :=
  .table s!"Configuration ({file.text})" ["Setting", "Value"] [
    ["Embeddings", choiceText s.embeddings],
    ["Explanations", choiceText s.explanations],
    ["Vector store", if s.vectorEnabled then s.vectorUri else "disabled"],
    ["Collection", s.collection],
    ["Max depth", toString s.maxDepth],
    ["Max file size", s!"{s.maxFileBytes} bytes"],
    ["Default threshold", s.threshold.text],
    ["Default limit", toString s.limit]]

/-- The line that a provider has been saved. -/
def savedLine : Service.Capability → String → Output
  | .embeddings, provider => .line s!"[green]Embedding provider set to {provider}.[/green]"
  | .explanations, provider => .line s!"[green]Explanation provider set to {provider}.[/green]"

end CodeSearch.Command
