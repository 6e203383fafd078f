import CodeSearch.Command.Basic

/-!
The words of a command line.

The first words that begin with no hyphen say what is to be done. An option begins with a hyphen
and takes the next word as its value, unless it is one of those that take none.
-/
set_option autoImplicit false

namespace CodeSearch.Command

/-- A command line taken apart: its plain words, its options with their values, and the options
without one. -/
structure Arguments where
  words : List String := []
  options : List (String × String) := []
  flags : List String := []

/-- The options that take no value. -/
def bareOptions : List String := ["--no-context", "--version", "-V"]

/-- Some words taken apart. An option at the end that lacks its value is left out. -/
def Arguments.ofWords : List String → Arguments
  | [] => {}
  | [word] =>
    if bareOptions.contains word then { flags := [word] }
    else if word.startsWith "-" then {}
    else { words := [word] }
  | word :: next :: rest =>
    if bareOptions.contains word then
      let a := ofWords (next :: rest)
      { a with flags := word :: a.flags }
    else if word.startsWith "-" then
      let a := ofWords rest
      { a with options := (word, next) :: a.options }
    else
      let a := ofWords (next :: rest)
      { a with words := word :: a.words }

/-- The value of an option by one of its two names. -/
def Arguments.option? (a : Arguments) (long short : String) : Option String :=
  a.options.lookup long <|> a.options.lookup short

/-- An option that is a whole number. -/
def Arguments.whole? (a : Arguments) (long short : String) : Option Int :=
  (a.option? long short).bind fun word => (Value.text word).toInt.toOption

/-- An option that is a threshold. -/
def Arguments.threshold? (a : Arguments) : Option Search.Threshold :=
  (a.option? "--threshold" "-t").bind fun word =>
    ((Value.text word).toFloat.toOption).map .real

/-- The command that a command line means, if it means one. -/
def Request.ofArguments (a : Arguments) : Option Request :=
  let limit := a.whole? "--limit" "-l"
  if a.flags.contains "--version" || a.flags.contains "-V" then some (.version true)
  else
    match a.words with
    | ["index", path] => some (.index path)
    | ["search", path, text] =>
      some (.question path (.search text a.threshold? limit (a.option? "--kind" "-k")))
    | ["similar", path, code] => some (.question path (.similar code a.threshold? limit))
    | ["explain", path, text] =>
      some (.question path (.explain text (!a.flags.contains "--no-context")))
    | ["ask", path, text] => some (.question path (.insight text))
    | ["patterns", path] => some (.question path .patterns)
    | ["deps", path] =>
      let most := (a.whole? "--max" "--max").getD 10
      some (.question path (.dependencies (a.option? "--symbol" "-s") most))
    | ["config"] =>
      some (.configure (a.option? "--embeddings" "--embeddings") (a.option? "--llm" "--llm")
        ((a.option? "--model" "--model").getD "") ((a.option? "--api-key" "--api-key").getD ""))
    | _ => none

/-- How the commands are called. -/
def usage : List String := [
  "index PATH",
  "search PATH TEXT [-t THRESHOLD] [-l LIMIT] [-k KIND]",
  "similar PATH CODE [-t THRESHOLD] [-l LIMIT]",
  "explain PATH QUESTION [--no-context]",
  "ask PATH QUESTION",
  "patterns PATH",
  "deps PATH [-s NAME] [--max COUNT]",
  "config [--embeddings PROVIDER] [--llm PROVIDER] [--model MODEL] [--api-key KEY]",
  "--version"]

/-- The directory that a command is about. -/
def Request.path? : Request → Option String
  | .index path => some path
  | .question path _ => some path
  | _ => none

/-! ## Responses as lines -/

/-- What is printed as lines, tables with a bar between columns. -/
def Output.lines : Output → List String
  | .line markup => [markup]
  | .table title columns rows => title :: " | ".intercalate columns :: rows.map (" | ".intercalate ·)
  | .panel title body => [title, body.display]

/-- The number that a program ends with. -/
def Ending.code : Ending → UInt32
  | .done _ => 0
  | .exit code => code.toUInt32
  | _ => 2

/-- The error that a command ends with, if it is not printed already. -/
def Ending.message? : Ending → Option String
  | .badParameter reason => some reason
  | .indexFault f => some f.message
  | .inquiryFault f => some f.message
  | .fault f => some f.message
  | _ => none

end CodeSearch.Command
