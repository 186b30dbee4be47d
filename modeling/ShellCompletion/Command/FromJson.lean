import ShellCompletion.Command.Basic
import ShellCompletion.Json.Reader

/-!
# Command trees from JSON

A command is an object, or an array of its fields in order. Fields that are not known are passed
over, a field may be left out except for the name of a command, and none may be given twice. Arrays
and objects that hold a part of the tree may be nested to a limited depth; what is passed over may
be nested as deep as it likes.

The readers take the number of levels that are left. A value that opens a level needs more than one.
-/

namespace ShellCompletion

namespace Json

/-- The number of levels that a reader starts with. -/
def maxLevels : Nat := 128

/-- The text of a string. -/
def text? : Json → Option String
  | .string text => text
  | _ => none

/-- A text that may be `null`. -/
def optionalText? : Json → Option (Option String)
  | .null => some none
  | value => value.text?.map some

/-- Reads an array, item by item, one level down. -/
def list? {α : Type} (levels : Nat) (item? : Nat → Json → Option α) : Json → Option (List α)
  | .array items => if levels ≤ 1 then none else items.mapM (item? (levels - 1))
  | _ => none

/-- The members of a structure with the named fields: of an object, or of an array that gives the
fields in order and may stop early. `none` if there is something that does not belong. -/
def fields? (names : List String) : Json → Option (List (String × Json))
  | .object members => do
    let members ← members.mapM fun member => member.1.map fun key => (key, member.2)
    let known := members.filter fun member => member.1 ∈ names
    if (known.map (·.1)).Nodup then some known else none
  | .array items => if items.length ≤ names.length then some (names.zip items) else none
  | _ => none

/-- The reading of a field, or the given value if the field is left out. -/
def field? {α : Type} (fields : List (String × Json)) (name : String) (missing : Option α)
    (read? : Json → Option α) : Option α :=
  match fields.lookup name with
  | some value => read? value
  | none => missing

/-- A kind of flag: its word, or an object with the word as its only key and `null` under it. -/
def kind? (levels : Nat) : Json → Option ValueKind
  | .object [(some word, .null)] => if levels ≤ 1 then none else ValueKind.ofWord? word
  | value => value.text?.bind ValueKind.ofWord?

/-- A flag. -/
def flag? (levels : Nat) (value : Json) : Option Flag := do
  if levels ≤ 1 then
    none
  let below := levels - 1
  let fields ← value.fields? ["short", "long", "kind", "values"]
  return {
    short := ← field? fields "short" (some none) optionalText?
    long := ← field? fields "long" (some none) optionalText?
    kind := ← field? fields "kind" (some .switch) (kind? below)
    values := ← field? fields "values" (some []) (list? below fun _ => text?) }

/-- A command. -/
def command? (levels : Nat) (value : Json) : Option Command :=
  match levels with
  | 0 => none
  | below + 1 => do
    if below = 0 then
      none
    let fields ← value.fields? ["name", "short", "flags", "subcommands"]
    return {
      name := ← field? fields "name" none text?
      short := ← field? fields "short" (some none) optionalText?
      flags := ← field? fields "flags" (some []) (list? below flag?)
      subcommands := ← field? fields "subcommands" (some []) fun
        | .array items =>
          match below with
          | 0 => none
          | lower + 1 => if lower = 0 then none else items.mapM (command? lower)
        | _ => none }

end Json

/-- The tree that a JSON text holds. -/
def Command.ofJsonText? (text : String) : Option Command := do
  (← Json.read? text).command? Json.maxLevels

end ShellCompletion
