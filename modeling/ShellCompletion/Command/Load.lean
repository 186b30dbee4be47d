import ShellCompletion.Command.FromJson
import ShellCompletion.Command.FromYaml
import ShellCompletion.FileSystem.Access

/-!
# Command trees from files

The extension of a file tells the format of the tree in it.
-/

namespace ShellCompletion

/-- A format of tree files. -/
inductive TreeFormat where
  | json
  | yaml
  deriving DecidableEq, Repr

namespace TreeFormat

/-- The format of a file: YAML if its extension says so in letters of either case, and JSON
otherwise. -/
def ofPath (path : String) : TreeFormat :=
  match Path.extension? path with
  | some extension =>
    let folded := extension.toList.map Char.toLower
    if folded = "yaml".toList ∨ folded = "yml".toList then yaml else json
  | none => json

/-- The name of a format. -/
def name : TreeFormat → String
  | json => "JSON"
  | yaml => "YAML"

end TreeFormat

/-- Why no tree is loaded. -/
inductive LoadError where
  /-- The file cannot be read. -/
  | file (cause : FileError)
  /-- The text of the file is no tree in this format. -/
  | malformed (format : TreeFormat)
  deriving DecidableEq, Repr

/-- The message for the user. What is wrong with a malformed text is not said. -/
def LoadError.message : LoadError → String
  | file cause => "I/O error: " ++ cause.message
  | malformed format => format.name ++ " error: "

namespace Command

/-- The tree that a text holds. -/
def ofText (format : TreeFormat) (text : String) : Except LoadError Command :=
  let tree :=
    match format with
    | .json => ofJsonText? text
    | .yaml => ofYamlText? text
  match tree with
  | some tree => .ok tree
  | none => .error (.malformed format)

/-- Loads a tree from a file. -/
def load {m : Type → Type} [Monad m] [FileAccess m] (path : String) :
    m (Except LoadError Command) := do
  match ← FileAccess.readText path with
  | .ok text => return ofText (.ofPath path) text
  | .error cause => return .error (.file cause)

end Command

end ShellCompletion
