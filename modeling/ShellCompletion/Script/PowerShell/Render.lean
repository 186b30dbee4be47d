import ShellCompletion.Model.Basic
import ShellCompletion.Script.Identifier
import ShellCompletion.Script.PowerShell.Frame
import ShellCompletion.Script.PowerShell.Literal
import ShellCompletion.Script.Template
import ShellCompletion.Tunables.Basic

/-!
# PowerShell scripts

The tables of a PowerShell script: one hash table for each place and one for each flag record, with
every text as a literal.
-/

namespace ShellCompletion.Script.PowerShell

/-- The template of the script. -/
def template : List Segment :=
  parseTemplate (Text.ofLines frame).toList

/-- A hash table on a line of its own. Its fields are already written out. -/
def row (fields : List (String × String)) : String :=
  "        @\x7b " ++ "; ".intercalate (fields.map fun field => field.1 ++ " = " ++ field.2) ++
    " \x7d"

/-- The rows of the places. -/
def contextLines (model : Model) : List String :=
  model.allContexts.map fun (path, options) =>
    row [("Path", literal path.text), ("Options", literals options)]

/-- The rows of the flag records. -/
def flagLines (model : Model) : List String :=
  model.flagParams.map fun param =>
    row [("Path", literal param.path.text),
      ("Name", literal param.form),
      ("Requirement", "'" ++ param.requirement.word ++ "'"),
      ("Kind", "'" ++ param.kind.word ++ "'"),
      ("Options", literals param.values)]

/-- What stands at each placeholder of the template. -/
def slotValues (model : Model) (program : String) (tunables : Tunables) : List (String × String) :=
  [("NAME", powerShellName program),
    ("PROGRAM", escape program),
    ("FUZZY_ENABLED", if tunables.fuzzyEnabled then "$true" else "$false"),
    ("MAX_CANDIDATES", toString tunables.maxCandidates.toNat),
    ("MIN_PATTERN_LENGTH", toString tunables.minPatternLength.toNat),
    ("SCORE_THRESHOLD", toString tunables.scoreThreshold.toNat),
    ("MAX_RESULTS", toString tunables.maxResults.toNat),
    ("CACHE_MAX_SIZE", toString tunables.cacheMaxSize.toNat),
    ("CONTEXTS", Text.ofLines (contextLines model)),
    ("FLAG_PARAMS", Text.ofLines (flagLines model))]

/-- The PowerShell script for a program. -/
def script (model : Model) (program : String) (tunables : Tunables) : String :=
  renderTemplate template (slotValues model program tunables)

end ShellCompletion.Script.PowerShell
