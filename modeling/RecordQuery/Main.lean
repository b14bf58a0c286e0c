import RecordQuery.CommandLine.Command

/-!
# The program

Reads the arguments, the environment, the registry file and the standard input, and prints what the
command answers. The exit code is 1 where a command fails and 2 where the arguments make no sense.
-/

namespace RecordQuery.CommandLine

/-- What is printed where the arguments make no sense. -/
def usage : String :=
  "usage: saql [-p] [--registry FILE] [--max-depth N] [--max-iterations N] COMMAND\n" ++
    "commands: parse [QUERY] [--conditions], render [JSON], " ++
    "test QUERY [-i JSON] [--conditions],\n" ++
    "  cursor QUERY OFFSET [--skip-commas], highlight [QUERY], operators\n"

/-- Whether a command works on a text that is not given as an argument. -/
def Command.readsStdin : Command → Bool
  | parse query _ | highlight query => query.isNone
  | render json => json.isNone
  | test _ input _ => input.isNone
  | cursor .. | operators => false

/-- The text of a file, if it can be read. -/
def readFile? (path : String) : IO (Option String) :=
  try some <$> IO.FS.readFile path catch _ => return none

/-- The rest of a stream. -/
partial def readRest (stream : IO.FS.Stream) (before : String) : IO String := do
  let line ← stream.getLine
  if line.isEmpty then return before else readRest stream (before ++ line)

/-- Gathers what an invocation is run with. -/
def surroundings (invocation : Invocation) : IO Surroundings := do
  let registryFile ← match invocation.registry with
    | some path => readFile? path
    | none => pure none
  let depth ← IO.getEnv "SAQL_MAX_DEPTH"
  let steps ← IO.getEnv "SAQL_MAX_ITERATIONS"
  let stdin ← if invocation.command.readsStdin then readRest (← IO.getStdin) "" else pure ""
  return { registryFile, ceilings := Ceilings.ofEnvironment depth steps, stdin }

/-- Answers a request. -/
def answer : Request → IO UInt32
  | .version => do
    IO.print versionText
    return 0
  | .run invocation => do
    match invocation.output (← surroundings invocation) with
    | .ok text =>
      IO.print text
      return 0
    | .error failure =>
      IO.eprintln failure.message
      return 1

end RecordQuery.CommandLine

/-- Answers a command line. -/
def main (arguments : List String) : IO UInt32 := do
  match RecordQuery.CommandLine.Request.ofArguments? arguments with
  | some request => RecordQuery.CommandLine.answer request
  | none =>
    IO.eprint RecordQuery.CommandLine.usage
    return 2
