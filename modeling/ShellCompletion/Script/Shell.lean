/-!
# Shells

The shells for which a script can be made.
-/

namespace ShellCompletion

/-- A shell. -/
inductive Shell where
  /-- Bash. -/
  | bash
  /-- PowerShell. -/
  | powerShell
  deriving DecidableEq, Repr

namespace Shell

/-- The name under which a shell is reported. -/
def name : Shell → String
  | bash => "bash"
  | powerShell => "pwsh"

/-- The shell of a name. Case matters, and PowerShell has two names. -/
def ofName? : String → Option Shell
  | "bash" => some bash
  | "pwsh" => some powerShell
  | "powershell" => some powerShell
  | _ => none

/-- A shell is found by its name. -/
theorem ofName?_name (shell : Shell) : ofName? shell.name = some shell := by
  cases shell <;> rfl

end Shell

end ShellCompletion
