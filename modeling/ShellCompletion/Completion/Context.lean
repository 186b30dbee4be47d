import ShellCompletion.Model.Basic
import ShellCompletion.Text.Search

/-!
# Where a command line has got to

The words of a command line lead from the root down the model, one place for each word. A word that
looks like a flag, or that leads nowhere, ends the descent.
-/

namespace ShellCompletion

/-- The word looks like a flag. -/
def isFlagWord (word : String) : Bool :=
  Text.startsWith word "-"

namespace Model

/-- Descends from a place along words. -/
def descend (model : Model) (path : ContextPath) : List String → ContextPath
  | [] => path
  | word :: rest =>
    if isFlagWord word then path
    else if model.hasContext (path.child word) then model.descend (path.child word) rest
    else path

/-- The place to which the words of a command line lead; the first word is the program. -/
def contextOf (model : Model) (words : List String) : ContextPath :=
  model.descend .root words.tail

end Model

end ShellCompletion
