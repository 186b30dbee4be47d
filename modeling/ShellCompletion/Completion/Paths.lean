import ShellCompletion.FileSystem.Access
import ShellCompletion.Text.Search

/-!
# Completing a path

A word that stands for a path is cut behind its last slash: the first part names a directory, and
the entries of that directory which begin with the second part are offered. A hidden entry is
offered only if the second part begins with a dot.
-/

namespace ShellCompletion

/-- A word cut behind its last slash. -/
def pathParts (word : String) : String × String :=
  let (directory, name) := Text.cutAfterLast '/' word.toList
  (String.ofList directory, String.ofList name)

/-- The directory that the first part of a word names. -/
def searchedDirectory (part : String) : String :=
  if part = "" then "." else part

/-- The name begins with a dot. -/
def isHidden (name : String) : Bool :=
  Text.startsWith name "."

/-- An entry as it is offered, if it is: behind the first part of the word, and with a slash if it
is a directory. -/
def offered? (part typed : String) (entry : DirectoryEntry) : Option String :=
  if Text.startsWith entry.name typed && (!isHidden entry.name || isHidden typed) then
    some (part ++ entry.name ++ if entry.isDirectory then "/" else "")
  else none

/-- The paths that are offered for a word when the directory it names has these entries. -/
def pathsAmong (word : String) (entries : List DirectoryEntry) : List String :=
  let (part, typed) := pathParts word
  (entries.filterMap (offered? part typed)).mergeSort fun a b => a ≤ b

/-- The paths that are offered for a word. A directory that cannot be read offers nothing. -/
def pathsFor {m : Type → Type} [Monad m] [FileAccess m] (word : String) : m (List String) := do
  match ← FileAccess.list (searchedDirectory (pathParts word).1) with
  | .ok entries => return pathsAmong word entries
  | .error _ => return []

end ShellCompletion
