import ShellCompletion.FileSystem.Error

/-!
# A file system as a value

Files, directories and links below one root, seen from a working directory. A path that begins with
a slash is followed from the root, and any other from the working directory. The directory above the
root is the root itself. Links are followed as far as the system allows.
-/

namespace ShellCompletion

/-- The name of a file: any bytes but a slash and a NUL. -/
abbrev FileName := List UInt8

/-- What a name stands for. -/
inductive Node where
  /-- A file with its bytes. -/
  | file (bytes : ByteArray)
  /-- A directory. -/
  | directory
  /-- A link with the path it leads to, seen from the directory of the link. -/
  | link (target : List UInt8)

/-- Files, directories and links, each under the names that lead to it from the root. -/
structure FileSystem where
  /-- The entries; the root itself is not among them. -/
  entries : List (List FileName × Node) := []
  /-- The names that lead from the root to the directory in which the program runs. -/
  workingDirectory : List FileName := []

namespace FileSystem

/-- The byte that separates names. -/
def slash : UInt8 := 47

/-- The name of the directory itself. -/
def dot : FileName := [46]

/-- The name of the directory above. -/
def dotDot : FileName := [46, 46]

/-- The number of links after which the system gives up. -/
def maxLinks : Nat := 40

/-- The greatest length of a name. -/
def maxNameLength : Nat := 255

/-- The length from which on a path is too long. -/
def maxPathLength : Nat := 4096

/-- The node under a list of names. -/
def node? (fs : FileSystem) (place : List FileName) : Option Node :=
  if place = [] then some .directory else fs.entries.lookup place

/-- Puts a node under a list of names, in the place of what is there. -/
def put (fs : FileSystem) (place : List FileName) (node : Node) : FileSystem :=
  match fs.entries.lookup place with
  | some _ =>
    { fs with
      entries := fs.entries.map fun entry => if entry.1 = place then (place, node) else entry }
  | none => { fs with entries := fs.entries ++ [(place, node)] }

/-- The names directly below a list of names. -/
def namesBelow (fs : FileSystem) (place : List FileName) : List FileName :=
  fs.entries.filterMap fun entry =>
    match entry.1.getLast? with
    | some name => if entry.1.dropLast = place then some name else none
    | none => none

/-! ## Following a path -/

/-- The parts of a path between its slashes. -/
def splitAtSlashes : List UInt8 → List FileName
  | [] => [[]]
  | b :: rest =>
    if b = slash then [] :: splitAtSlashes rest
    else
      match splitAtSlashes rest with
      | name :: names => (b :: name) :: names
      | [] => [[b]]

/-- The names of a path. -/
def namesOf (path : List UInt8) : List FileName :=
  (splitAtSlashes path).filter (· ≠ [])

/-- The path ends with a slash, so what it leads to must be a directory. -/
def endsInSlash (path : List UInt8) : Bool :=
  path.getLast? == some slash

/-- The steps of a path: its names, and behind a slash at the end a stay in the same directory. -/
def stepsOf (path : List UInt8) : List FileName :=
  namesOf path ++ if endsInSlash path then [dot] else []

/-- The path is followed from the root. -/
def isAbsolute (path : List UInt8) : Bool :=
  path.head? == some slash

/-- Where a path leads. -/
inductive Destination where
  /-- To a node. -/
  | found (place : List FileName) (node : Node)
  /-- To a name that is not there, in a directory that is. -/
  | missing (directory : List FileName) (name : FileName)

/-- Follows steps from a place; `links` links may still be met on the way. Above the root there is
the root. -/
def follow (fs : FileSystem) (links : Nat) (place : List FileName) :
    List FileName → Except FileError Destination
  | [] =>
    match fs.node? place with
    | some node => .ok (.found place node)
    | none => .error .notFound
  | name :: rest =>
    match fs.node? place with
    | none => .error .notFound
    | some .directory =>
      if name = dot then fs.follow links place rest
      else if name = dotDot then fs.follow links place.dropLast rest
      else if maxNameLength < name.length then .error .nameTooLong
      else
        match fs.node? (place ++ [name]) with
        | none => if rest = [] then .ok (.missing place name) else .error .notFound
        | some (.link target) =>
          match links with
          | 0 => .error .tooManyLinks
          | links + 1 =>
            fs.follow links (if isAbsolute target then [] else place) (stepsOf target ++ rest)
        | some _ => fs.follow links (place ++ [name]) rest
    | some _ => .error .notADirectory
termination_by steps => (links, steps.length)

/-- Refuses a path that no system call takes. -/
def checkPath (path : List UInt8) : Except FileError Unit :=
  if 0 ∈ path then .error .nulInPath
  else if path = [] then .error .notFound
  else if maxPathLength ≤ path.length then .error .nameTooLong
  else .ok ()

/-- The place that a path is followed from. -/
def startOf (fs : FileSystem) (path : List UInt8) : List FileName :=
  if isAbsolute path then [] else fs.workingDirectory

/-- Follows a path. -/
def locate (fs : FileSystem) (path : List UInt8) : Except FileError Destination := do
  checkPath path
  fs.follow maxLinks (fs.startOf path) (stepsOf path)

/-- The place of the directory in which the last name of a path stands, and that name. A path of
slashes alone has no name; it leads to the root as a dot there does. -/
def locateParent (fs : FileSystem) (path : List UInt8) :
    Except FileError (List FileName × FileName) := do
  checkPath path
  let names := namesOf path
  match names.getLast? with
  | none => return ([], dot)
  | some name =>
    if maxNameLength < name.length then
      throw .nameTooLong
    match ← fs.follow maxLinks (fs.startOf path) names.dropLast with
    | .found place .directory => return (place, name)
    | .found _ _ => throw .notADirectory
    | .missing _ _ => throw .notFound

/-! ## Operations -/

/-- The path leads to a directory. -/
def isDirectory (fs : FileSystem) (path : List UInt8) : Bool :=
  match fs.locate path with
  | .ok (.found _ .directory) => true
  | _ => false

/-- The bytes of a file. -/
def read (fs : FileSystem) (path : List UInt8) : Except FileError ByteArray := do
  match ← fs.locate path with
  | .found _ (.file bytes) => return bytes
  | .found _ .directory => throw .isADirectory
  | .found _ (.link _) | .missing _ _ => throw .notFound

/-- Writes a file, in the place of one that is there. A path that ends with a slash names no
file. -/
def write (fs : FileSystem) (path : List UInt8) (bytes : ByteArray) :
    Except FileError FileSystem := do
  if endsInSlash path then
    let _ ← fs.locateParent path
    throw .isADirectory
  match ← fs.locate path with
  | .found place (.file _) => return fs.put place (.file bytes)
  | .found _ .directory => throw .isADirectory
  | .found _ (.link _) => throw .notFound
  | .missing place name => return fs.put (place ++ [name]) (.file bytes)

/-- Puts a node under a new name. -/
def create (fs : FileSystem) (path : List UInt8) (node : Node) : Except FileError FileSystem := do
  let (place, name) ← fs.locateParent path
  if name = dot ∨ name = dotDot then
    throw .alreadyExists
  match fs.node? (place ++ [name]) with
  | some _ => throw .alreadyExists
  | none => return fs.put (place ++ [name]) node

/-- The names in a directory, each with the answer whether it leads to a directory. -/
def list (fs : FileSystem) (path : List UInt8) : Except FileError (List (FileName × Bool)) := do
  match ← fs.locate path with
  | .found place .directory =>
    return (fs.namesBelow place).map fun name =>
      (name, match fs.follow maxLinks place [name] with
        | .ok (.found _ .directory) => true
        | _ => false)
  | .found _ _ => throw .notADirectory
  | .missing _ _ => throw .notFound

end FileSystem

end ShellCompletion
