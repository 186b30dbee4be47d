import ShellCompletion.Command.Load
import ShellCompletion.Command.Validation
import ShellCompletion.CommandLine.Arguments
import ShellCompletion.Completion.Line
import ShellCompletion.Json.Printer
import ShellCompletion.Script.Generate
import ShellCompletion.Text.Lines
import ShellCompletion.Tunables.File

/-!
# Carrying out a request

What the program prints, and how it exits, for each request. Files are read and written through the
surroundings. An output is opened only after everything that can be refused has been looked at.
-/

namespace ShellCompletion.CommandLine

/-! ## Outcomes -/

/-- How a run ends. -/
structure Outcome where
  /-- The exit code. -/
  exitCode : UInt32 := 0
  /-- What is printed. -/
  output : String := ""
  /-- What is printed to the user beside the output. -/
  notes : String := ""
  deriving DecidableEq, Repr

/-- Why a request is not carried out. -/
inductive Failure where
  /-- No script can be made. -/
  | script (cause : Script.Error)
  /-- The tunables in a file are of no use. -/
  | tunables (path : String) (cause : Tunables.Error)
  /-- A tree file is of no use. -/
  | tree (path : String) (cause : LoadError)
  /-- A tree breaks a rule. -/
  | invalidTree (path : String) (cause : Fault)
  /-- The directory of the output cannot be made. -/
  | outputDirectory (path : String) (cause : FileError)
  /-- The output cannot be written. -/
  | output (path : String) (cause : FileError)
  /-- Some of the trees are of no use or break a rule. -/
  | validation (failed total : Nat)
  deriving DecidableEq, Repr

/-- The message for the user. -/
def Failure.message : Failure → String
  | script cause => cause.message
  | tunables path cause => path ++ ": " ++ cause.message
  | tree path cause => path ++ ": " ++ cause.message
  | invalidTree path cause => path ++ ": " ++ cause.message
  | outputDirectory path cause =>
    "Failed to create output directory '" ++ path ++ "': " ++ cause.message
  | output path cause => "Failed to create '" ++ path ++ "': " ++ cause.message
  | validation failed total =>
    toString failed ++ " of " ++ toString total ++ " command tree file(s) failed validation"

/-- The end of a run that fails. -/
def Failure.outcome (failure : Failure) : Outcome :=
  { exitCode := 1, notes := "error: " ++ failure.message ++ "\n" }

variable {m : Type → Type} [Monad m] [FileAccess m]

/-- Goes on with an answer, or fails for its cause. -/
def orFail {ε α : Type} (failure : ε → Failure) (answer : Except ε α) : ExceptT Failure m α :=
  ExceptT.mk (pure (answer.mapError failure))

/-- Asks the surroundings, and fails if they do. -/
def ask {ε α : Type} (failure : ε → Failure) (question : m (Except ε α)) :
    ExceptT Failure m α := do
  orFail failure (← question)

/-! ## What requests have in common -/

/-- The tunables in the file that is named, or else the defaults. -/
def baseTunables (tuning : Tuning) : ExceptT Failure m Tunables :=
  match tuning.file with
  | some path => ask (.tunables path) (Tunables.load path)
  | none => pure {}

/-- The tunables that a request is carried out with. -/
def resolveTunables (tuning : Tuning) : ExceptT Failure m Tunables := do
  let base ← baseTunables tuning
  let tunables := tuning.override base
  orFail (fun cause => .script (.outOfRange cause)) tunables.check
  return tunables

/-- The tree in a file, not checked. -/
def loadTree (path : String) : ExceptT Failure m Command :=
  ask (.tree path) (Command.load path)

/-- The tree in a file, checked. -/
def loadValidTree (path : String) : ExceptT Failure m Command := do
  let tree ← loadTree path
  orFail (.invalidTree path) tree.check
  return tree

/-- The tree in a file, checked if it is to be. -/
def loadChecked (path : String) (validate : Bool) : ExceptT Failure m Command :=
  if validate then loadValidTree path else loadTree path

/-! ## Requests -/

/-- Makes the directory that a file stands in. -/
def makeParent (path : String) : ExceptT Failure m Unit :=
  match (Path.parent? path).filter (· ≠ "") with
  | some parent => ask (.outputDirectory parent) (FileAccess.makeDirectories parent)
  | none => pure ()

/-- Opens a file for output: makes the directory it stands in, and a new file, or empties the one
that is there. -/
def openOutput (path : String) : ExceptT Failure m Unit := do
  makeParent path
  ask (.output path) (FileAccess.write path .empty)

/-- Makes a script, and fills a file with it. -/
def writeScript (path executable : String) (tree : Command) (shell : Shell)
    (tunables : Tunables) : ExceptT Failure m Unit := do
  let script ← orFail .script (Script.generateWith executable (some tree) shell tunables)
  ask (fun cause => .script (.file cause)) (FileAccess.write path script.toUTF8)

/-- Makes a script. -/
def generate (executable : String) (request : ScriptRequest) : ExceptT Failure m Outcome := do
  let shell ← orFail .script (Script.shellOfName request.shell)
  let tunables ← resolveTunables request.tuning
  let tree ← loadChecked request.input !request.skipValidation
  match request.output with
  | none =>
    let script ← orFail .script (Script.generateWith executable (some tree) shell tunables)
    return { output := script }
  | some path =>
    openOutput path
    writeScript path executable tree shell tunables
    return {
      notes := "Wrote " ++ shell.name ++ " completion for '" ++ tree.name ++ "' to '" ++ path ++
        "'.\n" }

/-- What is told about a tree file that holds. -/
def validLine (path : String) (tree : Command) : String :=
  path ++ ": ok (" ++ toString tree.nodeCount ++ " command(s))"

/-- Checks a list of tree files, and answers with the lines about those that hold and the lines
about those that fail. -/
def validateAll : List String → m (List String × List String)
  | [] => return ([], [])
  | path :: rest => do
    let answer ← (loadValidTree path).run
    let (valid, failed) ← validateAll rest
    match answer with
    | .ok tree => return (validLine path tree :: valid, failed)
    | .error failure => return (valid, failure.message :: failed)

/-- Checks tree files. -/
def validate (inputs : List String) : m Outcome := do
  let (valid, failed) ← validateAll inputs
  if failed = [] then
    return {
      output := Text.ofLines valid ++ "Validated " ++ toString inputs.length ++
        " command tree file(s).\n" }
  else
    let failure := (Failure.validation failed.length inputs.length).outcome
    return { failure with
      output := Text.ofLines valid
      notes := Text.ofLines failed ++ failure.notes }

/-- A number, set to the right in three places. -/
def padScore (score : Nat) : String :=
  let digits := toString score
  String.ofList (List.replicate (3 - digits.length) ' ') ++ digits

/-- The lines about the candidates that match a pattern: the tier, and each with its score. -/
def scoreLines (pattern : String) (selection : Matching.Selection) : List String :=
  ("tier: " ++ (selection.tier.map Matching.Tier.name).getD "none") ::
    selection.items.map fun candidate =>
      padScore (Matching.score pattern candidate) ++ "  " ++ candidate

/-- Ranks candidates. -/
def score (pattern : String) (candidates : List String) (tuning : Tuning) :
    ExceptT Failure m Outcome := do
  let tunables ← resolveTunables tuning
  let (selection, _) := (Matcher.new tunables).select pattern candidates
  return { output := Text.ofLines (scoreLines pattern selection) }

/-- A model as a JSON value, the members in the order of their names. -/
def contextsJson (model : Model) : Json :=
  .ofMembers [
    ("contexts", .array (model.allContexts.map fun (path, options) =>
      .ofMembers [("options", .ofTexts options), ("path", .ofText path.text)])),
    ("flag_params", .array (model.flagParams.map fun param =>
      .ofMembers [("kind", .ofText param.kind.word), ("name", .ofText param.form),
        ("options", .ofTexts param.values), ("path", .ofText param.path.text),
        ("requirement", .ofText param.requirement.word)]))]

/-- The line about a place. -/
def contextLine (path : ContextPath) (options : List String) : String :=
  "  " ++ path.text ++ "  " ++ " ".intercalate options

/-- The line about a flag. -/
def flagLine (param : FlagParam) : String :=
  "  ".intercalate (["", param.path.text, param.form, param.kind.word, param.requirement.word] ++
    if param.values = [] then [] else ["[" ++ ", ".intercalate param.values ++ "]"])

/-- The lines about a model. -/
def contextsLines (model : Model) : List String :=
  "Contexts:" :: model.allContexts.map (fun (path, options) => contextLine path options) ++
    "Flag parameters:" :: model.flagParams.map flagLine

/-- Shows the model of a tree, which is not checked. -/
def contexts (input : String) (json : Bool) : ExceptT Failure m Outcome := do
  let tree ← loadTree input
  return {
    output :=
      if json then (contextsJson tree.model).indented ++ "\n"
      else Text.ofLines (contextsLines tree.model) }

/-- The words of a command line that is completed. Without a word it is the program alone, and
behind the program alone there is an empty word. -/
def completionWords (program : String) : List String → List String
  | [] => [program, ""]
  | [word] => [word, ""]
  | words => words

/-- Completes a command line for a tree, which is not checked. -/
def complete (input : String) (words : List String) (tuning : Tuning) :
    ExceptT Failure m Outcome := do
  let tunables ← resolveTunables tuning
  let tree ← loadTree input
  let answer : m (Completion × Matcher) :=
    tree.model.completeWithFiles (.new tunables) (completionWords tree.name words)
  return { output := Text.ofLines (← answer).1.items }

/-! ## The program -/

/-- Carries out a request. -/
def Invocation.run (executable : String) : Invocation → ExceptT Failure m Outcome
  | generate request => CommandLine.generate executable request
  | validate inputs => (CommandLine.validate inputs : m Outcome)
  | score pattern candidates tuning => CommandLine.score pattern candidates tuning
  | contexts input json => CommandLine.contexts input json
  | complete input words tuning => CommandLine.complete input words tuning

/-- The text of the help. -/
def helpText : String :=
  Text.ofLines (["Generate and inspect offline shell completion scripts", "",
    "Usage: cmdflag [-v] <command> [arguments]", "", "Commands:"] ++
    Action.all.map fun action =>
      "  " ++ action.name ++ String.ofList (List.replicate (10 - action.name.length) ' ') ++
        action.summary)

/-- The end of a run whose command line asks for nothing. -/
def Stop.outcome : Stop → Outcome
  | help => { output := helpText }
  | version => { output := "cmdflag 0.1.0\n" }
  | misuse => { exitCode := 2, notes := helpText }

/-- Runs the program. The name of the executable stands for that of a tree without a name. -/
def run (executable : String) (arguments : List String) : m Outcome := do
  match parse arguments with
  | .error stop => return stop.outcome
  | .ok invocation =>
    match ← (invocation.run executable).run with
    | .ok outcome => return outcome
    | .error failure => return failure.outcome

end ShellCompletion.CommandLine
