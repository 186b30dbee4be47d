/-!
# Identifiers made from a program's name

The names of functions and variables in a script are built around a fragment that is made from the
program's name and that every shell accepts.
-/

namespace ShellCompletion.Script

/-- A character of a Bash identifier. -/
def isIdentifierChar (c : Char) : Bool :=
  c.isAlphanum || c == '_'

/-- The fragment for Bash: every character that an identifier cannot hold becomes an underscore.
The empty name becomes `app`. -/
def bashIdentifier (program : String) : String :=
  match program.toList with
  | [] => "app"
  | cs => String.ofList (cs.map fun c => if isIdentifierChar c then c else '_')

/-- The letters and digits of a list of characters, with each maximal run of them capitalised.
`fresh` says that the next letter or digit begins a run. -/
def capitalisedRuns (fresh : Bool) : List Char → List Char
  | [] => []
  | c :: rest =>
    if c.isAlphanum then (if fresh then c.toUpper else c) :: capitalisedRuns false rest
    else capitalisedRuns true rest

/-- The fragment for PowerShell: the runs of letters and digits, each with a capital. A name with
no letter and no digit becomes `App`. -/
def powerShellName (program : String) : String :=
  match capitalisedRuns true program.toList with
  | [] => "App"
  | cs => String.ofList cs

end ShellCompletion.Script
