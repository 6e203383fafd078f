import CodeSearch.Command.Output
import CodeSearch.Command.Shell

/-!
The commands.

Each command but the one for the configuration indexes a directory, does one thing with what it
finds, and closes its engine again, whatever has happened. An error that is expected is printed,
or found fault with as a bad argument if already the directory is no good; any other one is what
the command comes to.
-/
set_option autoImplicit false

namespace CodeSearch.Command

open CodeSearch.Search (Threshold)

/-- What can be asked of an index. -/
inductive Question where
  | search (text : String) (threshold : Option Threshold) (limit : Option Int) (kind : Option String)
  | similar (code : String) (threshold : Option Threshold) (limit : Option Int)
  | explain (question : String) (withContext : Bool)
  | insight (question : String)
  | patterns
  | dependencies (symbol : Option String) (limit : Int)

/-- A command. -/
inductive Request where
  | index (path : String)
  | question (path : String) (q : Question)
  /-- The configuration, with providers set before it is shown. -/
  | configure (embeddings explanations : Option String) (model apiKey : String)
  | checkKind (kind : Option String)
  | version (wanted : Bool)

/-- How a command ends. -/
inductive Ending where
  /-- With a value, if it has one. -/
  | done (value : Option String)
  | exit (code : Nat)
  | badParameter (reason : String)
  | indexFault (f : IndexFault)
  | inquiryFault (f : InquiryFault)
  | fault (f : Fault)

/-- What a command comes to: what is printed, what is said without markup, how it ends, and
warnings. -/
structure Response where
  printed : List Output := []
  said : Option String := none
  ending : Ending := .done none
  warnings : List String := []

/-- The name and number of this program. -/
def version : String := "codesift v0.1.0"

/-- The response that an expected error gives. -/
def refused (message : String) : List Output × Ending :=
  ([errorLine message], .exit 1)

/-- What follows from the answer to a question. -/
def answered {α : Type} (print : α → List Output) : Except InquiryFault α → List Output × Ending
  | .ok found => (print found, .done none)
  | .error (.broken f) => ([], .fault f)
  | .error f => refused f.message

variable {σ : Type}

/-- No other build or question comes between the steps of those of a command. -/
def alone (_ : Moment) (e : Engine σ) : Engine σ := e

/-- A question asked of an engine that has its index. -/
def Question.put (e : Engine σ) : Question → (List Output × Ending) × Engine σ
  | .search text threshold limit kind =>
    let (outcome, after) := e.search alone (some text) threshold limit kind
    (answered resultsOutput outcome, after)
  | .similar code threshold limit =>
    let (outcome, after) := e.similar alone (some code) threshold limit
    (answered resultsOutput outcome, after)
  | .explain question withContext =>
    let (outcome, after) := e.explain alone (some question) withContext
    (answered (fun text => [.panel "Explanation" text]) outcome, after)
  | .insight question =>
    let (outcome, after) := e.insight alone (some question)
    (answered (fun text => [.panel "Analysis" text]) outcome, after)
  | .patterns =>
    match e.patterns, e.embeddingReport with
    | .ok found, .ok report => ((patternsOutput found report, .done none), e)
    | .error n, _ | _, .error n => (([], .inquiryFault (.notIndexed n)), e)
  | .dependencies symbol limit =>
    match e.dependencyGraph with
    | .ok graph => ((graphOutput graph symbol limit, .done none), e)
    | .error n => (([], .inquiryFault (.notIndexed n)), e)

/-- What a command comes to with its engine, which is closed after that. -/
def Shell.finish (s : Shell σ) (result : List Output × Ending) (e : Engine (String × σ))
    (said : List String) : Response × Shell σ :=
  let closed := e.close
  ({ printed := result.1
     ending := result.2
     warnings := said ++ closed.notices.filterMap Notice.warning? }, s.leave closed)

/-- A directory indexed, and its summary printed. -/
def Shell.index (s : Shell σ) (e : Engine (String × σ)) (path : String) (said : List String) :
    Response × Shell σ :=
  match e.index alone path with
  | (.ok summary, after) => s.finish (summaryOutput summary, .done none) after said
  | (.error (.broken f), after) => s.finish ([], .fault f) after said
  | (.error (.home f), after) => s.finish ([], .indexFault (.home f)) after said
  | (.error f, after) => s.finish (refused f.message) after said

/-- A directory indexed, and a question asked. -/
def Shell.ask (s : Shell σ) (e : Engine (String × σ)) (path : String) (q : Question)
    (said : List String) : Response × Shell σ :=
  match e.index alone path with
  | (.ok _, after) =>
    let (result, asked) := q.put after
    s.finish result asked said
  | (.error (.broken f), after) => s.finish ([], .fault f) after said
  | (.error (.home f), after) => s.finish ([], .indexFault (.home f)) after said
  | (.error f, after) => s.finish ([], .badParameter f.message) after said

/-- A provider saved, if one is named: what is printed or what broke, and warnings. -/
def Shell.save (s : Shell σ) (capability : Service.Capability) (named : Option String)
    (model apiKey : String) : Except Fault (List Output) × List String × Shell σ :=
  match named.filter fun provider => !provider.isEmpty with
  | none => (.ok [], [], s)
  | some provider =>
    match Config.saveChoice s.format s.disk s.base capability (Text.lower provider) model apiKey ""
      with
    | .error (.broken f) => (.error f, [], s)
    -- the section of a capability is known
    | .error (.unknownSection _) => (.ok [], [], s)
    | .ok saved =>
      (.ok (if saved.done then [savedLine capability provider] else []), saved.warnings,
        { s with disk := saved.disk })

/-- Providers saved, and the configuration shown. -/
def Shell.configure (s : Shell σ) (embeddings explanations : Option String)
    (model apiKey : String) : Response × Shell σ :=
  let (first, said, s) := s.save .embeddings embeddings model apiKey
  match first with
  | .error f => ({ ending := .fault f, warnings := said }, s)
  | .ok first =>
    let (second, saidToo, s) := s.save .explanations explanations model apiKey
    match second with
    | .error f => ({ printed := first, ending := .fault f, warnings := said ++ saidToo }, s)
    | .ok second =>
      let (found, saidLast) := Config.loadSettings s.format s.disk s.base s.environmentKey
      let warnings := said ++ saidToo ++ saidLast
      match found with
      | .ok settings =>
        ({ printed := first ++ second ++ [settingsOutput (Config.filePath s.base) settings]
           warnings := warnings }, s)
      | .error f => ({ printed := first ++ second, ending := .fault f, warnings := warnings }, s)

/-- The engine that the configuration gives, put to use. -/
def Shell.withEngine (s : Shell σ)
    (use : Engine (String × σ) → List String → Response × Shell σ) : Response × Shell σ :=
  let (found, said) := Config.loadSettings s.format s.disk s.base s.environmentKey
  match found with
  | .ok settings => use (s.engineFor settings) said
  | .error f => ({ ending := .fault f, warnings := said }, s)

/-- What is checked of a kind. -/
def checkKind (kind : Option String) : Ending :=
  match kind with
  | none => .done none
  | some kind =>
    if Chunk.kinds.contains kind then .done (some kind)
    else .badParameter ("Kind must be one of: " ++ ", ".intercalate Chunk.kinds)

/-- A command carried out. -/
def Shell.run (s : Shell σ) : Request → Response × Shell σ
  | .index path => s.withEngine fun e said => s.index e path said
  | .question path q => s.withEngine fun e said => s.ask e path q said
  | .configure embeddings explanations model apiKey =>
    s.configure embeddings explanations model apiKey
  | .checkKind kind => ({ ending := checkKind kind }, s)
  | .version wanted =>
    (if wanted then { said := some version, ending := .exit 0 } else {}, s)

end CodeSearch.Command
