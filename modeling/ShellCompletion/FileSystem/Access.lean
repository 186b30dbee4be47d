import ShellCompletion.FileSystem.Basic
import ShellCompletion.FileSystem.Path

/-!
# Access to files

The file operations that the library asks of its surroundings, and what it builds from them. They
are answered by the system when the program runs, and by a file system that is a value when a run is
reasoned about.
-/

namespace ShellCompletion

/-- An entry of a directory. -/
structure DirectoryEntry where
  /-- The name. -/
  name : String
  /-- The name leads to a directory. -/
  isDirectory : Bool
  deriving DecidableEq, Repr

/-- The file operations of a program that runs in `m`. -/
class FileAccess (m : Type → Type) where
  /-- The bytes of a file. -/
  read : String → m (Except FileError ByteArray)
  /-- Writes a file, in the place of one that is there. -/
  write : String → ByteArray → m (Except FileError Unit)
  /-- Makes one directory. -/
  makeDirectory : String → m (Except FileError Unit)
  /-- The path leads to a directory. -/
  isDirectory : String → m Bool
  /-- The entries of a directory whose names are texts. -/
  list : String → m (Except FileError (List DirectoryEntry))

namespace FileAccess

variable {m : Type → Type} [Monad m] [FileAccess m]

/-- The text of a file. -/
def readText (path : String) : m (Except FileError String) := do
  match ← read path with
  | .error cause => return .error cause
  | .ok bytes =>
    match String.fromUTF8? bytes with
    | some text => return .ok text
    | none => return .error .notText

/-- Makes one directory, unless it is there already. -/
def ensureDirectory (path : String) : m (Except FileError Unit) := do
  match ← makeDirectory path with
  | .error .alreadyExists =>
    if ← isDirectory path then return .ok () else return .error .alreadyExists
  | answer => return answer

/-- Tries to make a directory; as long as the one above is missing, goes on with that. The answer
lists the directories that are still to be made, the outermost last. -/
def climb : List String → m (Except FileError (List String))
  | [] => return .ok []
  | path :: above => do
    match ← ensureDirectory path with
    | .ok () => return .ok []
    | .error .notFound => return (← climb above).map (path :: ·)
    | .error cause => return .error cause

/-- Makes directories one after the other, up to the first failure. -/
def ensureAll : List String → m (Except FileError Unit)
  | [] => return .ok ()
  | path :: rest => do
    match ← ensureDirectory path with
    | .ok () => ensureAll rest
    | .error cause => return .error cause

/-- Makes a directory together with those above it. -/
def makeDirectories (path : String) : m (Except FileError Unit) := do
  match ← climb (Path.ancestors path) with
  | .error cause => return .error cause
  | .ok missing => ensureAll missing.reverse

end FileAccess

/-- The bytes of a path that is given as a text. -/
def pathBytes (path : String) : List UInt8 :=
  path.toUTF8.toList

/-- Applies an operation to the file system, which stays as it is when the operation fails. -/
def FileSystem.change (operation : FileSystem → Except FileError FileSystem) :
    StateM FileSystem (Except FileError Unit) := fun fs =>
  match operation fs with
  | .ok fs' => (.ok (), fs')
  | .error cause => (.error cause, fs)

instance : FileAccess (StateM FileSystem) where
  read path := fun fs => (fs.read (pathBytes path), fs)
  write path bytes := FileSystem.change (·.write (pathBytes path) bytes)
  makeDirectory path := FileSystem.change (·.create (pathBytes path) .directory)
  isDirectory path := fun fs => (fs.isDirectory (pathBytes path), fs)
  list path := fun fs =>
    ((fs.list (pathBytes path)).map fun entries =>
      entries.filterMap fun (name, isDirectory) =>
        (String.fromUTF8? ⟨name.toArray⟩).map fun name => { name, isDirectory }, fs)

end ShellCompletion
