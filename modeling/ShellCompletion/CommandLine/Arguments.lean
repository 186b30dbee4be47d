import ShellCompletion.CommandLine.Usage

/-!
# From arguments to a request

The commands, what each of them takes, and how a whole command line is understood: switches, the
name of a command, and the arguments of that command.
-/

namespace ShellCompletion.CommandLine

/-- A command. -/
inductive Action where
  | generate
  | validate
  | score
  | contexts
  | complete
  deriving DecidableEq, Repr

namespace Action

/-- All commands. -/
def all : List Action :=
  [generate, validate, score, contexts, complete]

/-- The name of a command. -/
def name : Action → String
  | generate => "generate"
  | validate => "validate"
  | score => "score"
  | contexts => "contexts"
  | complete => "complete"

/-- What a command does, in short. -/
def summary : Action → String
  | generate => "Generate a completion script from a command tree file"
  | validate => "Validate one or more command tree files"
  | score => "Rank candidates against a pattern with the completion matcher"
  | contexts => "Print the context paths and flag parameters of a command tree"
  | complete => "Complete a command line the way the generated scripts would"

/-- The command of a name. -/
def ofName? (name : String) : Option Action :=
  all.find? (·.name = name)

end Action

/-- The options for the tunables. -/
def tuningOptions : List OptionRule :=
  [⟨"config", some .path⟩, ⟨"no-fuzzy", none⟩, ⟨"max-candidates", some .word64⟩,
    ⟨"min-pattern-length", some .word64⟩, ⟨"score-threshold", some .word32⟩,
    ⟨"max-results", some .word64⟩, ⟨"cache-max-size", some .word64⟩]

/-- What a command takes. -/
def Action.usage : Action → Usage
  | generate =>
    { options :=
        [⟨"shell", some .text⟩, ⟨"input", some .path⟩, ⟨"output", some .path⟩,
          ⟨"skip-validation", none⟩] ++ tuningOptions
      operands := .nowhere }
  | validate => { options := [], operands := .paths }
  | score => { options := ⟨"pattern", some .anyText⟩ :: tuningOptions, operands := .toTheEnd }
  | contexts => { options := [⟨"input", some .path⟩, ⟨"json", none⟩], operands := .nowhere }
  | complete => { options := ⟨"input", some .path⟩ :: tuningOptions, operands := .behindDashes }

/-- What the arguments say about the tunables. -/
def Reading.tuning (reading : Reading) : Tuning where
  file := reading.value? "config"
  noFuzzy := reading.has "no-fuzzy"
  maxCandidates := (reading.value? "max-candidates").bind word64?
  minPatternLength := (reading.value? "min-pattern-length").bind word64?
  scoreThreshold := (reading.value? "score-threshold").bind word32?
  maxResults := (reading.value? "max-results").bind word64?
  cacheMaxSize := (reading.value? "cache-max-size").bind word64?

/-- The request of a command with its arguments, unless something that it needs is missing. -/
def Action.invocation? (action : Action) (reading : Reading) : Option Invocation :=
  match action with
  | generate => do
    return .generate {
      shell := ← reading.value? "shell"
      input := ← reading.value? "input"
      output := reading.value? "output"
      skipValidation := reading.has "skip-validation"
      tuning := reading.tuning }
  | validate => if reading.operands = [] then none else some (.validate reading.operands)
  | score => do
    return .score (← reading.value? "pattern") reading.operands reading.tuning
  | contexts => do
    return .contexts (← reading.value? "input") (reading.has "json")
  | complete => do
    return .complete (← reading.value? "input") reading.operands reading.tuning

/-- Reads the arguments of a command. -/
def Action.parse (action : Action) (arguments : List String) : Except Stop Invocation := do
  match action.invocation? (← action.usage.read arguments) with
  | some invocation => return invocation
  | none => throw .misuse

/-- The answer to the word `help`, which the name of one command may follow. -/
def helpOn : List String → Stop
  | [] => .help
  | [name] => if name = "help" ∨ (Action.ofName? name).isSome then .help else .misuse
  | _ => .misuse

/-- Reads a command line; `verbose` tells whether that switch is set already. -/
def parseFrom (verbose : Bool) : List String → Except Stop Invocation
  | [] => .error .misuse
  | text :: rest =>
    match Argument.ofText text with
    | .dashes => .error .misuse
    | .letters letters => do parseFrom (← Switch.setLetters Switch.outer verbose letters) rest
    | .long name value =>
      match Switch.outer.find? (·.name = name), value with
      | some switch, none => do parseFrom (← switch.set verbose) rest
      | _, _ => .error .misuse
    | .plain =>
      if text = "help" then .error (helpOn rest)
      else
        match Action.ofName? text with
        | some action => action.parse rest
        | none => .error .misuse

/-- Reads a command line, without the name of the program. -/
def parse (arguments : List String) : Except Stop Invocation :=
  parseFrom false arguments

end ShellCompletion.CommandLine
