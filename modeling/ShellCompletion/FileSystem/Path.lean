/-!
# Path texts

What a path says by its text alone, with no look at any directory: the directory above it and the
extension of its last name. Slashes at the end, repeated slashes and single dots behind a slash say
nothing.
-/

namespace ShellCompletion.Path

/-- A path, read from its end, without the slashes and single dots at the end. A single slash
stays. -/
def dropTail : List Char → List Char
  | '/' :: rest => if rest = [] then ['/'] else dropTail rest
  | '.' :: '/' :: rest => if rest = [] then ['/'] else dropTail rest
  | cs => cs

/-- The path above a path. It is empty above a path of one name; the empty path and the topmost
directory have none. -/
def parent? (path : String) : Option String :=
  match dropTail path.toList.reverse with
  | [] => none
  | ['/'] => none
  | cs => some (String.ofList (dropTail (cs.dropWhile (· ≠ '/'))).reverse)

/-- The last name of a path, unless it is one of the names made of dots alone. -/
def lastName? (path : String) : Option String :=
  let name := String.ofList ((dropTail path.toList.reverse).takeWhile (· ≠ '/')).reverse
  if name = "" ∨ name = "." ∨ name = ".." then none else some name

/-- What follows the last dot of the last name. A dot that begins the name does not count. -/
def extension? (path : String) : Option String := do
  let name := (← lastName? path).toList.reverse
  match name.dropWhile (· ≠ '.') with
  | _ :: _ :: _ => some (String.ofList (name.takeWhile (· ≠ '.')).reverse)
  | _ => none

/-- A path and the paths above it that have a name, each above the one before. -/
def ancestors (path : String) : List String :=
  match parent? path with
  | none => []
  | some above =>
    if above.length < path.length ∧ above ≠ "" then path :: ancestors above else [path]
termination_by path.length
decreasing_by simp_all

end ShellCompletion.Path
