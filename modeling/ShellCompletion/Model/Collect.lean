import ShellCompletion.Model.Basic
import ShellCompletion.Model.Walk

/-!
# From a tree to its model

The places are the spellings of the visits of the walk. Two visits may share a spelling: then their
options are joined, and of two records with one key the first in the walk is kept.
-/

namespace ShellCompletion

namespace Visit

/-- The flag records of a visit: for each flag the long form before the short one. -/
def flagParams (visit : Visit) : List FlagParam :=
  visit.command.flags.flatMap fun flag =>
    flag.typedForms.map fun form =>
      { path := visit.path, form, kind := flag.kind,
        values := if flag.kind = .choice then flag.values else [] }

/-- Adds the options of a visit to those of its place. -/
def addContext (contexts : Std.TreeMap ContextPath OptionSet) (visit : Visit) :
    Std.TreeMap ContextPath OptionSet :=
  contexts.alter visit.path fun known =>
    some ((known.getD {}).insertMany visit.command.directOptions)

end Visit

namespace FlagParam

/-- The first record of each key, `seen` being the keys that are already taken. -/
def firstPerKey (seen : List (ContextPath × String)) : List FlagParam → List FlagParam
  | [] => []
  | param :: rest =>
    if param.key ∈ seen then firstPerKey seen rest
    else param :: firstPerKey (param.key :: seen) rest

end FlagParam

namespace Command

/-- The model of a tree. -/
def model (root : Command) : Model where
  rootOptions := .ofList root.directOptions
  contexts := root.visits.foldl Visit.addContext {}
  flagParams := FlagParam.firstPerKey [] <|
    ((⟨.root, root⟩ : Visit) :: root.visits).flatMap Visit.flagParams

end Command

/-- The model of a program that may have no tree: without one there is only an empty root. -/
def Model.ofRoot? : Option Command → Model
  | some root => root.model
  | none => {}

end ShellCompletion
