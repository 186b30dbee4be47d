import ShellCompletion.Command.Basic
import ShellCompletion.Yaml.Decode

/-!
# Command trees from YAML

The same structure as in JSON: fields that are not known are passed over, all but the name of a
command may be left out, and none may be given twice. The readers take the number of levels that are
left.
-/

namespace ShellCompletion.Yaml.Decode

/-- A kind of flag. -/
def kind (node : Node) : Decode ValueKind := do
  match ValueKind.ofWord? (← word node) with
  | some kind => return kind
  | none => failure

/-- A list of texts. -/
def texts (levels : Nat) (node : Node) : Decode (List String) := do
  (← items levels node).mapM text

/-- A flag. -/
def flag (levels : Nat) (node : Node) : Decode Flag := do
  let fields ← fields ["short", "long", "kind", "values"] levels node
  return {
    short := ← field fields "short" (some none) optionalText
    long := ← field fields "long" (some none) optionalText
    kind := ← field fields "kind" (some .switch) kind
    values := ← field fields "values" (some []) (texts (levels - 1)) }

/-- A list of flags. -/
def flags (levels : Nat) (node : Node) : Decode (List Flag) := do
  (← items levels node).mapM (flag (levels - 1))

/-- A command. Its subcommands stand two levels down, in a sequence inside the mapping; without
levels it can only have neither. -/
def command (levels : Nat) (node : Node) : Decode Command := do
  let fields ← fields ["name", "short", "flags", "subcommands"] levels node
  let below := levels - 1
  return {
    name := ← field fields "name" none text
    short := ← field fields "short" (some none) optionalText
    flags := ← field fields "flags" (some []) (flags below)
    subcommands := ← field fields "subcommands" (some []) fun node => do
      let items ← items below node
      match levels with
      | lower + 2 => items.mapM (command lower)
      | _ => if items.isEmpty then return [] else failure }

end ShellCompletion.Yaml.Decode

namespace ShellCompletion

/-- The tree that a YAML text holds. -/
def Command.ofYamlText? (text : String) : Option Command := do
  Yaml.Decode.run (Yaml.Decode.command Yaml.Decode.maxLevels) none (← Yaml.Document.read? text)

end ShellCompletion
