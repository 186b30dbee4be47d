/-!
# Command trees

A command line is described by a tree: a command has a name, perhaps a short alias, flags of its
own and nested subcommands. The root is the program. Names of flags are kept without their dashes.
-/

namespace ShellCompletion

/-- What a flag takes. -/
inductive ValueKind where
  /-- Nothing: the flag is a switch. -/
  | switch
  /-- Any text. -/
  | text
  /-- One value of a fixed list. -/
  | choice
  deriving DecidableEq, Repr, Inhabited

namespace ValueKind

/-- A word must follow the flag. -/
def takesValue : ValueKind → Bool
  | switch => false
  | text | choice => true

/-- The word that stands for the kind in tree files and in scripts. -/
def word : ValueKind → String
  | switch => "bool"
  | text => "string"
  | choice => "enum"

/-- The kind that a word stands for. -/
def ofWord? : String → Option ValueKind
  | "bool" => some switch
  | "string" => some text
  | "enum" => some choice
  | _ => none

/-- A kind is found by its word. -/
theorem ofWord?_word (kind : ValueKind) : ofWord? kind.word = some kind := by
  cases kind <;> rfl

end ValueKind

/-- A flag of a command. -/
structure Flag where
  /-- The short name, written after one dash. -/
  short : Option String := none
  /-- The long name, written after two dashes. -/
  long : Option String := none
  /-- What the flag takes. -/
  kind : ValueKind := .switch
  /-- The values of a choice, in the order of their declaration. -/
  values : List String := []
  deriving DecidableEq, Repr, Inhabited

namespace Flag

/-- A switch. -/
def switch (short long : Option String) : Flag :=
  { short, long }

/-- A flag that takes any text. -/
def text (short long : Option String) : Flag :=
  { short, long, kind := .text }

/-- A flag that takes one of `values`. -/
def choice (short long : Option String) (values : List String) : Flag :=
  { short, long, kind := .choice, values }

/-- The long form with its dashes. -/
def longForm (flag : Flag) : Option String :=
  flag.long.map ("--" ++ ·)

/-- The short form with its dash. -/
def shortForm (flag : Flag) : Option String :=
  flag.short.map ("-" ++ ·)

/-- The form that names the flag in messages: the long one if there is one. -/
def canonical (flag : Flag) : String :=
  (flag.longForm <|> flag.shortForm).getD "unknown"

end Flag

/-- A command with the flags and the subcommands below it. -/
structure Command where
  /-- The long name; at the root, the name of the program. -/
  name : String
  /-- The short alias. -/
  short : Option String := none
  /-- The flags that this command itself accepts. -/
  flags : List Flag := []
  /-- The commands directly below. -/
  subcommands : List Command := []
  deriving Repr, Inhabited

namespace Command

/-- The command with one more flag. -/
def addFlag (command : Command) (flag : Flag) : Command :=
  { command with flags := command.flags ++ [flag] }

/-- The command with one more subcommand. -/
def addSubcommand (command sub : Command) : Command :=
  { command with subcommands := command.subcommands ++ [sub] }

mutual

/-- The number of commands in the tree, the root included. -/
def nodeCount : Command → Nat
  | ⟨_, _, _, subs⟩ => 1 + nodeCountAll subs

/-- The number of commands in a list of trees. -/
def nodeCountAll : List Command → Nat
  | [] => 0
  | sub :: rest => sub.nodeCount + nodeCountAll rest

end

end Command

end ShellCompletion
