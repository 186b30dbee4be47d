import ShellCompletion.Command.Basic
import ShellCompletion.Model.ContextPath

/-!
# Walking a command tree

The walk visits the commands below the root level by level. A command that has both a name and an
alias is visited once for each, so that either word leads to a place of its own. A command whose
names are all empty is not visited, and nothing below it is.

Main statement: `length_visits`, the walk makes exactly the visits that `visitCount` predicts.
-/

namespace ShellCompletion

/-- A name that is there and not empty. -/
def present (name : Option String) : Option String :=
  name.filter (· ≠ "")

namespace Flag

/-- The forms in which a flag can be typed, the long one first. Empty names give none. -/
def typedForms (flag : Flag) : List String :=
  ((present flag.long).map ("--" ++ ·)).toList ++ ((present flag.short).map ("-" ++ ·)).toList

end Flag

namespace Command

/-- The words that lead to a command from its parent, the long name first. -/
def typedNames (command : Command) : List String :=
  (present (some command.name)).toList ++ (present command.short).toList

/-- All that can be typed at a command: the forms of its flags and the names of its subcommands. -/
def directOptions (command : Command) : List String :=
  command.flags.flatMap Flag.typedForms ++ command.subcommands.flatMap typedNames

mutual

/-- The number of visits that one visit of a command brings about, itself included. -/
def visitCount : Command → Nat
  | ⟨_, _, _, subs⟩ => 1 + visitCountBelow subs

/-- The number of visits that the subcommands of a visited command bring about. -/
def visitCountBelow : List Command → Nat
  | [] => 0
  | sub :: rest => sub.typedNames.length * sub.visitCount + visitCountBelow rest

end

end Command

/-- A command that is visited under one spelling. -/
structure Visit where
  /-- The words that led to the command. -/
  path : ContextPath
  /-- The command. -/
  command : Command

namespace Visit

/-- The visits of the subcommands: in their order, once for each name. -/
def below (visit : Visit) : List Visit :=
  visit.command.subcommands.flatMap fun sub =>
    sub.typedNames.map fun name => ⟨visit.path.child name, sub⟩

/-- The number of visits that those in the list bring about. -/
def total : List Visit → Nat
  | [] => 0
  | visit :: rest => visit.command.visitCount + total rest

/-- No visits bring about none. -/
@[simp]
theorem total_nil : total [] = 0 := rfl

/-- Each visit brings about its own count. -/
@[simp]
theorem total_cons (visit : Visit) (rest : List Visit) :
    total (visit :: rest) = visit.command.visitCount + total rest := rfl

/-- Visits in two lists add up. -/
@[simp]
theorem total_append (a b : List Visit) : total (a ++ b) = total a + total b := by
  induction a with
  | nil => simp
  | cons visit rest ih => simp [ih, Nat.add_assoc]

/-- Visiting one command under several names costs its count once for each. -/
theorem total_map_child (path : ContextPath) (sub : Command) (names : List String) :
    total (names.map fun name => ⟨path.child name, sub⟩) = names.length * sub.visitCount := by
  induction names with
  | nil => simp
  | cons name rest ih => simp [ih, Nat.succ_mul, Nat.add_comm]

/-- The visits below a command are those that its count predicts. -/
theorem total_below_eq (path : ContextPath) (subs : List Command) :
    total (subs.flatMap fun sub => sub.typedNames.map fun name => ⟨path.child name, sub⟩) =
      Command.visitCountBelow subs := by
  induction subs with
  | nil => simp [Command.visitCountBelow]
  | cons sub rest ih => simp [Command.visitCountBelow, total_map_child, ih]

/-- A visit is one more than the visits below it. -/
theorem visitCount_eq (visit : Visit) : visit.command.visitCount = 1 + total visit.below := by
  obtain ⟨path, ⟨name, short, flags, subs⟩⟩ := visit
  simp [below, total_below_eq, Command.visitCount]

end Visit

/-- Serves a queue of visits: each one puts those below it at the end of the queue. -/
def visits : List Visit → List Visit
  | [] => []
  | visit :: queue => visit :: visits (queue ++ visit.below)
termination_by queue => Visit.total queue
decreasing_by
  simp only [Visit.total_append, Visit.total_cons, Visit.visitCount_eq]
  omega

/-- The walk makes exactly the predicted number of visits. -/
theorem length_visits (queue : List Visit) : (visits queue).length = Visit.total queue := by
  fun_induction visits queue with
  | case1 => simp
  | case2 visit queue ih =>
    simp only [List.length_cons, ih, Visit.total_append, Visit.total_cons, Visit.visitCount_eq]
    omega

/-- The visits that a tree calls for, level by level. -/
def Command.visits (root : Command) : List Visit :=
  ShellCompletion.visits (Visit.below ⟨.root, root⟩)

end ShellCompletion
