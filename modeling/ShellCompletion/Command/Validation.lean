import ShellCompletion.Command.Basic
import ShellCompletion.Text.Blank

/-!
# Well-formed command trees

The rules that a tree has to keep before a script is made from it: names that can be typed, no two
flags of one command with the same dashed form, no two subcommands of one parent with the same name
or alias, and no command that bears the name of a command above it. `Command.check` walks the tree
from the root, each command before its subcommands, and stops at the first fault.
-/

namespace ShellCompletion

/-- A fault of a command tree. -/
inductive Fault where
  /-- A command has a blank name. -/
  | blankName
  /-- A flag has neither a short nor a long name. -/
  | namelessFlag
  /-- A flag name is empty, begins with a dash, or contains a blank or an equals sign. -/
  | badFlagName (name : String)
  /-- A choice offers no values. -/
  | emptyChoice (flag : String)
  /-- Two flags of one command have this form. -/
  | duplicateFlag (form : String)
  /-- The subcommand of this name has a blank alias. -/
  | blankAlias (name : String)
  /-- Two names of subcommands of one parent are equal. -/
  | duplicateSubcommand (name : String)
  /-- The last name of this path occurs earlier on it. -/
  | cycle (path : List String)
  deriving DecidableEq, Repr

namespace Fault

/-- What the fault is about. -/
def subject : Fault → Option String
  | blankName | namelessFlag => none
  | badFlagName name => some name
  | emptyChoice flag => some flag
  | duplicateFlag form => some form
  | blankAlias name => some name
  | duplicateSubcommand name => some name
  | cycle path => some (" ".intercalate path)

/-- What is wrong, without the subject. -/
def complaint : Fault → String
  | blankName => "command name cannot be empty"
  | namelessFlag => "flag must define short or long form"
  | badFlagName _ => "invalid flag name"
  | emptyChoice _ => "enum flag has no values"
  | duplicateFlag _ => "duplicate flag in scope"
  | blankAlias _ => "subcommand has an empty short alias"
  | duplicateSubcommand _ => "duplicate subcommand in scope"
  | cycle _ => "subcommand cycle detected at path"

/-- The message for the user. -/
def message (fault : Fault) : String :=
  match fault.subject with
  | some subject => fault.complaint ++ ": " ++ subject
  | none => fault.complaint

end Fault

/-! ## Flags -/

/-- A name that a flag may have: not empty, no leading dash, no blank and no equals sign. -/
def isFlagName (name : String) : Bool :=
  match name.toList with
  | [] => false
  | c :: rest => c != '-' && (c :: rest).all fun d => d != '=' && !Text.isBlank d

namespace Flag

/-- The names of a flag, the short one first, each with its dashed form. -/
def forms (flag : Flag) : List (String × String) :=
  (flag.short.map fun name => (name, "-" ++ name)).toList ++
    (flag.long.map fun name => (name, "--" ++ name)).toList

/-- Checks one name against the forms `seen` before it, and adds its form to them. -/
def checkForm (seen : List String) (form : String × String) : Except Fault (List String) :=
  if !isFlagName form.1 then .error (.badFlagName form.1)
  else if form.2 ∈ seen then .error (.duplicateFlag form.2)
  else .ok (form.2 :: seen)

/-- Checks one flag against the forms `seen` before it, and adds its forms to them. -/
def check (seen : List String) (flag : Flag) : Except Fault (List String) := do
  if flag.forms.isEmpty then
    throw .namelessFlag
  let seen ← flag.forms.foldlM checkForm seen
  if flag.kind = .choice ∧ flag.values = [] then
    throw (.emptyChoice flag.canonical)
  return seen

/-- Checks the flags of one command. -/
def checkAll (flags : List Flag) : Except Fault Unit := do
  let _ ← flags.foldlM check []

end Flag

/-! ## Commands -/

namespace Command

/-- The name of a command as it is compared with others. -/
def label (command : Command) : String :=
  Text.trim command.name

/-- The short alias of a command as it is compared with others. -/
def aliasLabel (command : Command) : Option String :=
  command.short.map Text.trim

/-- Checks one name of a subcommand against the names `seen` in the same list. -/
def checkName (seen : List String) (name : String) : Except Fault (List String) :=
  if name ∈ seen then .error (.duplicateSubcommand name) else .ok (name :: seen)

/-- Checks the names of a subcommand against the names `seen` in the same list and against the
`path` of commands above it, and adds them to `seen`. -/
def checkNames (path seen : List String) (sub : Command) : Except Fault (List String) := do
  if sub.label = "" then
    throw .blankName
  if sub.aliasLabel = some "" then
    throw (.blankAlias sub.label)
  let seen ← (sub.label :: sub.aliasLabel.toList).foldlM checkName seen
  if sub.label ∈ path then
    throw (.cycle (path ++ [sub.label]))
  return seen

mutual

/-- Checks the flags of a command and all that is below it; `path` ends with the command. -/
def checkBelow (path : List String) : Command → Except Fault Unit
  | ⟨_, _, flags, subs⟩ => do
    Flag.checkAll flags
    checkSiblings path [] subs

/-- Checks the rest of a list of subcommands, `seen` being the names that come before it. -/
def checkSiblings (path seen : List String) : List Command → Except Fault Unit
  | [] => .ok ()
  | sub :: rest => do
    let seen ← checkNames path seen sub
    checkBelow (path ++ [sub.label]) sub
    checkSiblings path seen rest

end

/-- Checks a whole tree and answers with its first fault. -/
def check (root : Command) : Except Fault Unit :=
  if root.label = "" then .error .blankName else root.checkBelow [root.name]

end Command

end ShellCompletion
