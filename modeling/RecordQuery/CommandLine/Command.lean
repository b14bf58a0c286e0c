import RecordQuery.CommandLine.Arguments
import RecordQuery.CommandLine.Overview
import RecordQuery.CommandLine.Report

/-!
# Commands

What the commands of the command line answer. A text that is not given as an argument is the
standard input. The query texts and JSON texts of `parse`, `render` and `highlight` lose the blanks
at their ends.

The ceilings come from the environment, and options take precedence. The `test` command reads its
query with the default ceilings, whatever else is set.
-/

namespace RecordQuery

/-- The ceilings that two environment variables set. A value that is no positive number counts as
none. -/
def Ceilings.ofEnvironment (maxDepth maxSteps : Option String) : Ceilings :=
  let setting (given : Option String) (default : Nat) : Nat :=
    let count? := do
      let count ← CommandLine.readCount? (Text.trim (← given))
      if count = 0 then none else some count
    count?.getD default
  let defaults : Ceilings := {}
  { depth := setting maxDepth defaults.depth, steps := setting maxSteps defaults.steps }

namespace CommandLine

/-- What can make a command fail. -/
inductive Failure where
  | problem (problem : Problem)
  | evaluation (fault : EvaluationFault)
  /-- A text that is no JSON. -/
  | notJson
  /-- A file that cannot be read. -/
  | unreadable
  /-- No text to work on. -/
  | noInput

/-- The message of a failure. -/
def Failure.message : Failure → String
  | problem p => "Parse error: " ++ p.message
  | evaluation fault => "Evaluation error: " ++ fault.message
  | notJson => "Invalid JSON"
  | unreadable => "IO error"
  | noInput => "No input provided. Pass it as an argument or pipe it to stdin."

/-! ## Answers -/

/-- The query that a text denotes, or whose condition it denotes. -/
def readQuery (text : String) (isCondition : Bool) (registry : Registry) (ceilings : Ceilings) :
    Except Failure Query :=
  let query := if isCondition then Query.ofCondition text registry ceilings
    else Query.ofText text registry ceilings
  query.mapError .problem

/-- The JSON value that a text denotes. -/
def readJson (text : String) : Except Failure Json :=
  match Json.read? text with
  | some json => .ok json
  | none => .error .notJson

/-- The JSON form of a query text. -/
def parse (text : String) (isCondition : Bool) (registry : Registry) (ceilings : Ceilings) :
    Except Failure Json := do
  return (← readQuery text isCondition registry ceilings).toJson

/-- The query text of a JSON text. -/
def render (text : String) (registry : Registry) : Except Failure String := do
  let query ← (Query.ofJson (← readJson text)).mapError fun fault => .problem (.ofForm fault)
  return query.render registry

/-- Tests some records. The first one whose test fails ends them all. -/
def testAll (query : Query) : List Json → Except Failure (List Bool)
  | [] => .ok []
  | record :: rest => do
    let (result, query) := query.test (Subject.ofJson record)
    let passes ← result.mapError .evaluation
    return passes :: (← testAll query rest)

/-- Tests the record, or each record of the array, that a JSON text denotes. -/
def test (text : String) (input : Option String) (isCondition : Bool) (registry : Registry) :
    Except Failure (List Bool) := do
  let query ← readQuery text isCondition registry {}
  match input with
  | none => throw .noInput
  | some input =>
    match ← readJson input with
    | .array records => testAll query records
    | record => testAll query [record]

/-- A query text with all that can be read of it. -/
def readClauses (text : String) (registry : Registry) (ceilings : Ceilings) :
    Except Failure Reading := do
  let r ← (Reading.start text registry ceilings).mapError .problem
  return r.evaluate.2

/-- The report of the caret at an offset of a query text. -/
def cursor (text : String) (offset : Nat) (skipCommas : Bool) (registry : Registry)
    (ceilings : Ceilings) : Except Failure Json := do
  return ((← readClauses text registry ceilings).caretAt offset skipCommas).report

/-- The report of the highlights of a query text. -/
def highlight (text : String) (registry : Registry) (ceilings : Ceilings) :
    Except Failure Json := do
  return .array ((← readClauses text registry ceilings).highlights.map Highlight.report)

/-! ## Running a command -/

/-- What a command line is run with: the text of the registry file, which may be unreadable, the
ceilings that the environment sets, and the standard input. -/
structure Surroundings where
  registryFile : Option String := none
  ceilings : Ceilings := {}
  stdin : String := ""

/-- The registry that an invocation names. -/
def readRegistry (invocation : Invocation) (around : Surroundings) : Except Failure Registry :=
  match invocation.registry, around.registryFile with
  | none, _ => .ok .empty
  | some _, none => .error .unreadable
  | some _, some text =>
    match Registry.read? text with
    | some registry => .ok registry
    | none => .error .notJson

/-- A JSON answer as it is printed. -/
def printed (invocation : Invocation) (json : Json) : String :=
  (if invocation.isPretty then json.indented 0 else json.text) ++ "\n"

/-- What an invocation prints. -/
def Invocation.output (invocation : Invocation) (around : Surroundings) :
    Except Failure String := do
  let registry ← readRegistry invocation around
  let ceilings : Ceilings := {
    depth := invocation.maxDepth.getD around.ceilings.depth
    steps := invocation.maxSteps.getD around.ceilings.steps }
  let text (argument : Option String) : String := argument.getD around.stdin
  match invocation.command with
  | .parse query isCondition =>
    return printed invocation (← parse (Text.trim (text query)) isCondition registry ceilings)
  | .render json => return (← CommandLine.render (Text.trim (text json)) registry) ++ "\n"
  | .test query input isCondition => do
    let results ← CommandLine.test query (some (text input)) isCondition registry
    return printed invocation (.array (results.map .bool))
  | .cursor query offset skipCommas =>
    return printed invocation (← CommandLine.cursor query offset skipCommas registry ceilings)
  | .highlight query =>
    return printed invocation (← highlight (Text.trim (text query)) registry ceilings)
  | .operators => return Overview.text

/-- What is printed where the version is asked for. -/
def versionText : String := "saql 0.2.0\n"

end CommandLine

end RecordQuery
