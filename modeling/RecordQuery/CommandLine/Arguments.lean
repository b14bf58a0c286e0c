import RecordQuery.Text.Blank
import RecordQuery.Number.Decimal

/-!
# Arguments

What a command line asks for. Every command has options of its own; the global options may stand
before the command and behind it, and what stands behind it counts. An option is given once at most
on each side. A value follows its option as the next argument, unless that looks like an option, or
stands in the same argument behind `=`; a one-letter option may also have its value right behind
the letter. Behind `--` nothing is taken for an option.
-/

namespace RecordQuery.CommandLine

/-! ## Numbers -/

/-- The largest number that an option can have. -/
def largestCount : Nat := twoTo 64 - 1

/-- A number in decimal digits, with an optional plus sign. -/
def readCount? (text : String) : Option Nat :=
  let digits := match text.toList with
    | '+' :: rest => rest
    | chars => chars
  if digits.isEmpty || !digits.all Decimal.isDigit then none
  else
    let count := Decimal.digitsValue digits
    if count ≤ largestCount then some count else none

/-! ## Options -/

/-- The names of the commands. -/
inductive CommandName where
  | parse
  | render
  | test
  | cursor
  | highlight
  | operators
deriving DecidableEq, Repr

/-- The command of a name. -/
def CommandName.ofWord? : String → Option CommandName
  | "parse" => some parse
  | "render" => some render
  | "test" => some test
  | "cursor" => some cursor
  | "highlight" => some highlight
  | "operators" => some operators
  | _ => none

/-- The options without a value. -/
inductive Switch where
  | pretty
  | version
  | conditions
  | skipCommas
deriving DecidableEq, Repr

/-- The options with a value. -/
inductive Parameter where
  | registry
  | maxDepth
  | maxSteps
  | input
deriving DecidableEq, Repr

/-- The options of a command line. -/
inductive CommandOption where
  | switch (switch : Switch)
  | parameter (parameter : Parameter)
deriving DecidableEq, Repr

/-- The option of a long name, if it may stand behind a command, or before any. -/
def longOption? (command : Option CommandName) (name : String) : Option CommandOption :=
  match command, name with
  | _, "pretty" => some (.switch .pretty)
  | _, "registry" => some (.parameter .registry)
  | _, "max-depth" => some (.parameter .maxDepth)
  | _, "max-iterations" => some (.parameter .maxSteps)
  | none, "version" => some (.switch .version)
  | some .parse, "conditions" => some (.switch .conditions)
  | some .test, "conditions" => some (.switch .conditions)
  | some .test, "input" => some (.parameter .input)
  | some .cursor, "skip-commas" => some (.switch .skipCommas)
  | _, _ => none

/-- The option of a letter, if it may stand behind a command, or before any. -/
def shortOption? (command : Option CommandName) (letter : Char) : Option CommandOption :=
  match command, letter with
  | _, 'p' => some (.switch .pretty)
  | none, 'V' => some (.switch .version)
  | some .test, 'i' => some (.parameter .input)
  | _, _ => none

/-- Whether an option takes a value. -/
def Parameter.accepts : Parameter → String → Bool
  | registry, value => !value.isEmpty
  | maxDepth, value | maxSteps, value => (readCount? value).isSome
  | input, _ => true

/-! ## Reading -/

/-- What was given before the command, or behind it. -/
structure Given where
  switches : List Switch := []
  values : List (Parameter × String) := []
  words : List String := []

namespace Given

/-- Whether a switch was given. -/
def has (given : Given) (switch : Switch) : Bool := given.switches.contains switch

/-- The value that an option was given. -/
def value? (given : Given) (parameter : Parameter) : Option String :=
  List.lookup parameter given.values

/-- The number that an option was given. -/
def count? (given : Given) (parameter : Parameter) : Option Nat :=
  (given.value? parameter).bind readCount?

/-- Adds a switch, which must not have been given before. -/
def addSwitch? (given : Given) (switch : Switch) : Option Given :=
  if given.has switch then none else some { given with switches := switch :: given.switches }

/-- Adds a value, if the option takes it and has none yet. -/
def addValue? (given : Given) (parameter : Parameter) (value : String) : Option Given :=
  if (given.value? parameter).isSome || !parameter.accepts value then none
  else some { given with values := (parameter, value) :: given.values }

/-- Adds a word that is no option. -/
def addWord (given : Given) (word : String) : Given := { given with words := given.words ++ [word] }

end Given

/-- What an argument is taken for. -/
inductive Argument where
  /-- The mark behind which nothing is an option. -/
  | mark
  /-- A long option, and the value behind `=`. -/
  | long (name : String) (value : Option String)
  /-- The letters of options, the last of which may have its value behind it. -/
  | letters (letters : List Char)
  | word (word : String)

/-- What an argument is taken for. -/
def Argument.ofText (text : String) : Argument :=
  match text.toList with
  | ['-', '-'] => .mark
  | '-' :: '-' :: rest =>
    let name := String.ofList (rest.takeWhile (· ≠ '='))
    match rest.dropWhile (· ≠ '=') with
    | _ :: value => .long name (some (String.ofList value))
    | [] => .long name none
  | '-' :: c :: rest => .letters (c :: rest)
  | _ => .word text

/-- The value that a text behind an option letter gives it; a sign of equality may come first. -/
def attachedValue? : List Char → Option String
  | [] => none
  | '=' :: rest => some (String.ofList rest)
  | rest => some (String.ofList rest)

/-- What the letters of an argument give: the options so far, and the one that still needs a
value. Letters behind the one that asks for the version are not read. -/
def readLetters? (command : Option CommandName) :
    List Char → Given → Option (Given × Option Parameter)
  | [], given => some (given, none)
  | letter :: rest, given =>
    match shortOption? command letter with
    | some (.switch switch) => do
      let given ← given.addSwitch? switch
      if switch = .version then return (given, none) else readLetters? command rest given
    | some (.parameter parameter) =>
      match attachedValue? rest with
      | some value => (given.addValue? parameter value).map fun given => (given, none)
      | none => some (given, some parameter)
    | none => none

/-- What an argument that is an option gives: the options so far, and the one that still needs a
value. -/
def readOption? (command : Option CommandName) (given : Given) :
    Argument → Option (Given × Option Parameter)
  | .long name value =>
    match longOption? command name, value with
    | some (.switch switch), none => (given.addSwitch? switch).map fun given => (given, none)
    | some (.parameter parameter), some value =>
      (given.addValue? parameter value).map fun given => (given, none)
    | some (.parameter parameter), none => some (given, some parameter)
    | _, _ => none
  | .letters letters => readLetters? command letters given
  | _ => none

/-- What the arguments behind a command give. -/
def readBehind? (command : CommandName) : List String → Given → Option Given
  | [], given => some given
  | text :: rest, given =>
    match Argument.ofText text with
    | .mark => some (rest.foldl Given.addWord given)
    | .word word => readBehind? command rest (given.addWord word)
    | option => do
      match ← readOption? (some command) given option, rest with
      | (given, none), rest => readBehind? command rest given
      | (given, some parameter), value :: rest =>
        match Argument.ofText value with
        | .word value => readBehind? command rest (← given.addValue? parameter value)
        | _ => none
      | (_, some _), [] => none

/-- What the arguments before the command give, and the command with the arguments behind it. Where
the version is asked for, nothing behind that is read. -/
def readBefore? : List String → Given → Option (Given × Option (CommandName × List String))
  | [], _ => none
  | text :: rest, given =>
    match Argument.ofText text with
    | .mark => none
    | .word word => (CommandName.ofWord? word).map fun command => (given, some (command, rest))
    | option => do
      match ← readOption? none given option, rest with
      | (given, none), rest =>
        if given.has .version then some (given, none) else readBefore? rest given
      | (given, some parameter), value :: rest =>
        match Argument.ofText value with
        | .word value => readBefore? rest (← given.addValue? parameter value)
        | _ => none
      | (_, some _), [] => none

/-! ## Requests -/

/-- A command with its arguments. -/
inductive Command where
  | parse (query : Option String) (isCondition : Bool)
  | render (json : Option String)
  | test (query : String) (input : Option String) (isCondition : Bool)
  | cursor (query : String) (offset : Nat) (skipCommas : Bool)
  | highlight (query : Option String)
  | operators
deriving DecidableEq, Repr

/-- A word that may be missing. -/
def optionalWord? : List String → Option (Option String)
  | [] => some none
  | [word] => some (some word)
  | _ => none

/-- The command that a name and what was given behind it stand for. -/
def Command.ofGiven? (name : CommandName) (given : Given) : Option Command :=
  match name, given.words with
  | .parse, words =>
    (optionalWord? words).map fun query => parse query (given.has .conditions)
  | .render, words => (optionalWord? words).map render
  | .test, [query] => some (test query (given.value? .input) (given.has .conditions))
  | .cursor, [query, offset] =>
    (readCount? offset).map fun offset => cursor query offset (given.has .skipCommas)
  | .highlight, words => (optionalWord? words).map highlight
  | .operators, [] => some operators
  | _, _ => none

/-- A command with the global options. -/
structure Invocation where
  registry : Option String := none
  maxDepth : Option Nat := none
  maxSteps : Option Nat := none
  isPretty : Bool := false
  command : Command
deriving DecidableEq, Repr

/-- What a command line asks for. -/
inductive Request where
  | version
  | run (invocation : Invocation)
deriving DecidableEq, Repr

/-- What some arguments ask for, if they make sense. -/
def Request.ofArguments? (arguments : List String) : Option Request := do
  let (before, command) ← readBefore? arguments {}
  match command with
  | none => return .version
  | some (name, rest) => do
    let behind ← readBehind? name rest {}
    return .run {
      registry := (behind.value? .registry).or (before.value? .registry)
      maxDepth := (behind.count? .maxDepth).or (before.count? .maxDepth)
      maxSteps := (behind.count? .maxSteps).or (before.count? .maxSteps)
      isPretty := behind.has .pretty || before.has .pretty
      command := ← Command.ofGiven? name behind }

end RecordQuery.CommandLine
