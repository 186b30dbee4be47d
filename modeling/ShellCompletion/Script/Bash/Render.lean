import ShellCompletion.Model.Basic
import ShellCompletion.Script.Bash.Frame
import ShellCompletion.Script.Bash.Word
import ShellCompletion.Script.Identifier
import ShellCompletion.Script.Template
import ShellCompletion.Tunables.Basic

/-!
# Bash scripts

The tables of a Bash script: places and flags are keys of associative arrays, and the lists that
belong to them are arrays with a number in their name, to which the keys point. The key of a flag is
its place, a bar and its dashed form.
-/

namespace ShellCompletion.Script.Bash

/-- The template of the script. -/
def template : List Segment :=
  parseTemplate (Text.ofLines frame).toList

/-- A row of an associative array. -/
def row (key value : String) : String :=
  "    [" ++ escape key ++ "]=" ++ value

/-- The declaration of a numbered array of the given family. -/
def arrayLine (ident family : String) (number : Nat) (values : List String) : String :=
  "declare -ga _" ++ ident ++ "_" ++ family ++ "_" ++ toString number ++ "=(" ++ words values ++ ")"

/-- The key of a flag. -/
def flagKey (param : FlagParam) : String :=
  param.path.text ++ "|" ++ param.form

/-- The records of choices. -/
def choices (model : Model) : List FlagParam :=
  model.flagParams.filter (·.kind = .choice)

/-- The rows that number the places. -/
def contextLines (model : Model) : List String :=
  model.allContexts.zipIdx.map fun (entry, number) => row entry.1.text (toString number)

/-- The arrays of the options at each place. -/
def optionLines (ident : String) (model : Model) : List String :=
  model.allContexts.zipIdx.map fun (entry, number) => arrayLine ident "opts" number entry.2

/-- The rows that tell the kind of each flag. -/
def kindLines (model : Model) : List String :=
  model.flagParams.map fun param => row (flagKey param) param.kind.word

/-- The rows that number the choices. -/
def choiceLines (model : Model) : List String :=
  (choices model).zipIdx.map fun (param, number) => row (flagKey param) (toString number)

/-- The arrays of the values of each choice. -/
def valueLines (ident : String) (model : Model) : List String :=
  (choices model).zipIdx.map fun (param, number) => arrayLine ident "enum" number param.values

/-- What stands at each placeholder of the template. -/
def slotValues (model : Model) (program : String) (tunables : Tunables) : List (String × String) :=
  let ident := bashIdentifier program
  [("IDENT", ident),
    ("PROGRAM", word program),
    ("FUZZY_ENABLED", if tunables.fuzzyEnabled then "1" else "0"),
    ("MAX_CANDIDATES", toString tunables.maxCandidates.toNat),
    ("MIN_PATTERN_LENGTH", toString tunables.minPatternLength.toNat),
    ("SCORE_THRESHOLD", toString tunables.scoreThreshold.toNat),
    ("MAX_RESULTS", toString tunables.maxResults.toNat),
    ("CACHE_MAX_SIZE", toString tunables.cacheMaxSize.toNat),
    ("CONTEXT_ENTRIES", Text.ofLines (contextLines model)),
    ("OPTION_ARRAYS", Text.ofLines (optionLines ident model)),
    ("FLAG_KIND_ENTRIES", Text.ofLines (kindLines model)),
    ("FLAG_ENUM_ENTRIES", Text.ofLines (choiceLines model)),
    ("ENUM_ARRAYS", Text.ofLines (valueLines ident model))]

/-- The Bash script for a program. -/
def script (model : Model) (program : String) (tunables : Tunables) : String :=
  renderTemplate template (slotValues model program tunables)

end ShellCompletion.Script.Bash
