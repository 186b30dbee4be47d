import ShellCompletion.FileSystem.Error
import ShellCompletion.Model.Collect
import ShellCompletion.Script.Bash.Render
import ShellCompletion.Script.BufferPool
import ShellCompletion.Script.PowerShell.Render
import ShellCompletion.Script.Shell

/-!
# Making a script

From a command tree, a shell and tunables to the text of the script. The tunables are checked; the
tree is taken as it is. One who makes many scripts can have them put together in the buffers of a
pool.
-/

namespace ShellCompletion.Script

/-- Why no script is made, or none is written. -/
inductive Error where
  /-- There is no shell of this name. -/
  | unsupportedShell (name : String)
  /-- A tunable is out of its range. -/
  | outOfRange (cause : Tunables.OutOfRange)
  /-- The script could not be written. -/
  | file (cause : FileError)
  deriving DecidableEq, Repr

/-- The message for the user. -/
def Error.message : Error → String
  | unsupportedShell name =>
    "unsupported shell: " ++ name ++ " (expected bash, pwsh, or powershell)"
  | outOfRange cause => "invalid completion config: " ++ cause.message
  | file cause => "I/O error: " ++ cause.message

/-- The shell of a name. -/
def shellOfName (name : String) : Except Error Shell :=
  match Shell.ofName? name with
  | some shell => .ok shell
  | none => .error (.unsupportedShell name)

/-- The name that the completion is registered for: that of the root, or, if there is none, that of
the executable, or `app` if that is empty too. -/
def programName (executable : String) (root : Option Command) : String :=
  ((root.bind fun command => present (some command.name)) <|> present (some executable)).getD "app"

/-- The text of a script, whatever the tunables. -/
def text (shell : Shell) (model : Model) (program : String) (tunables : Tunables) : String :=
  match shell with
  | .bash => Bash.script model program tunables
  | .powerShell => PowerShell.script model program tunables

/-- Makes the script for a tree. -/
def generateWith (executable : String) (root : Option Command) (shell : Shell)
    (tunables : Tunables) : Except Error String := do
  tunables.check.mapError .outOfRange
  return text shell (.ofRoot? root) (programName executable root) tunables

/-- Makes the script for a tree in a buffer of a pool, and gives the buffer back. Tunables that are
refused leave the pool alone. -/
def generateIn (pool : BufferPool) (executable : String) (root : Option Command) (shell : Shell)
    (tunables : Tunables) : Except Error (String × BufferPool) := do
  tunables.check.mapError .outOfRange
  let (buffer, rest) := pool.acquire
  let filled := buffer.push (text shell (.ofRoot? root) (programName executable root) tunables)
  return (filled.text, rest.release filled)

/-- Makes the script for a tree and the shell of a name, with the default tunables. -/
def generate (executable : String) (root : Option Command) (shell : String) :
    Except Error String := do
  generateWith executable root (← shellOfName shell) {}

/-- Makes the script for a tree and writes it to an output that has room for a number of bytes. -/
def writeTo (room : Nat) (executable : String) (root : Option Command) (shell : Shell)
    (tunables : Tunables) : Except Error ByteArray := do
  let script ← generateWith executable root shell tunables
  if room < script.utf8ByteSize then
    throw (.file .outOfRoom)
  return script.toUTF8

end ShellCompletion.Script
