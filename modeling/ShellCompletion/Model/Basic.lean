import ShellCompletion.Command.Basic
import ShellCompletion.Model.ContextPath
import Std.Data.TreeSet.Lemmas

/-!
# The completion model

What completion needs of a command tree, laid out flat: the options offered at each place, and one
record for each dashed form of a flag that is accepted there. Options and places are kept in the
order of their characters; the records are in the order in which the tree is walked.
-/

namespace ShellCompletion

/-- A set of options, in the order of their characters. -/
abbrev OptionSet := Std.TreeSet String

/-- Whether a flag must be followed by a value. -/
inductive Requirement where
  /-- The flag takes the next word. -/
  | required
  /-- The flag is a switch. -/
  | none
  deriving DecidableEq, Repr

namespace Requirement

/-- The requirement of a kind of flag. -/
def ofKind (kind : ValueKind) : Requirement :=
  if kind.takesValue then required else none

/-- The word for the requirement in scripts and listings. -/
def word : Requirement → String
  | required => "required"
  | none => "none"

end Requirement

/-- One dashed form of a flag at one place. -/
structure FlagParam where
  /-- The place where the flag is accepted. -/
  path : ContextPath
  /-- The form with its dashes. -/
  form : String
  /-- What the flag takes. -/
  kind : ValueKind
  /-- The values of a choice, and nothing for other kinds. -/
  values : List String
  deriving DecidableEq, Repr

namespace FlagParam

/-- What tells the records apart. -/
def key (param : FlagParam) : ContextPath × String :=
  (param.path, param.form)

/-- Whether a value must follow. -/
def requirement (param : FlagParam) : Requirement :=
  .ofKind param.kind

end FlagParam

/-- The completion model of a command tree. -/
structure Model where
  /-- The options at the root. -/
  rootOptions : OptionSet := {}
  /-- The options at every other place; a place that offers nothing is listed too. -/
  contexts : Std.TreeMap ContextPath OptionSet := {}
  /-- The flag records, no two with the same key, in the order of the walk. -/
  flagParams : List FlagParam := []

namespace Model

/-- Every place with its options in order, the root first. -/
def allContexts (model : Model) : List (ContextPath × List String) :=
  (.root, model.rootOptions.toList) ::
    model.contexts.toList.map fun entry => (entry.1, entry.2.toList)

/-- The options at a place, in order, if there is such a place. -/
def options? (model : Model) (path : ContextPath) : Option (List String) :=
  if path.isRoot then some model.rootOptions.toList
  else model.contexts[path]?.map (·.toList)

/-- There is such a place. -/
def hasContext (model : Model) (path : ContextPath) : Bool :=
  path.isRoot || model.contexts.contains path

/-- The record of a dashed form at a place. -/
def flagParam? (model : Model) (path : ContextPath) (form : String) : Option FlagParam :=
  model.flagParams.find? (·.key = (path, form))

/-- The number of places, the root included. -/
def contextCount (model : Model) : Nat :=
  model.contexts.size + 1

end Model

end ShellCompletion
