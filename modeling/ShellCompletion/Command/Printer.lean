import ShellCompletion.Command.Basic
import ShellCompletion.Json.Printer

/-!
# Command trees as JSON

The text in which a tree is stored. A name that is absent and an empty list of values are left out;
flags and subcommands are always written.
-/

namespace ShellCompletion

/-- A member that is left out when there is no text for it. -/
def optionalMember (key : String) (text : Option String) : List (String × Json) :=
  (text.map fun t => (key, Json.ofText t)).toList

namespace Flag

/-- A flag as a JSON object. -/
def toJson (flag : Flag) : Json :=
  .ofMembers <|
    optionalMember "short" flag.short ++ optionalMember "long" flag.long ++
      [("kind", .ofText flag.kind.word)] ++
      (if flag.values.isEmpty then [] else [("values", .ofTexts flag.values)])

/-- The compact JSON text of a flag. -/
def toText (flag : Flag) : String :=
  flag.toJson.compact

end Flag

namespace Command

mutual

/-- A tree as a JSON object. -/
def toJson : Command → Json
  | ⟨name, short, flags, subs⟩ =>
    .ofMembers <|
      [("name", .ofText name)] ++ optionalMember "short" short ++
        [("flags", .array (flags.map Flag.toJson)), ("subcommands", .array (toJsonAll subs))]

/-- A list of trees as JSON objects. -/
def toJsonAll : List Command → List Json
  | [] => []
  | sub :: rest => sub.toJson :: toJsonAll rest

end

/-- The compact JSON text of a tree. -/
def toText (command : Command) : String :=
  command.toJson.compact

end Command

end ShellCompletion
