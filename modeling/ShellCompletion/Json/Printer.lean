import ShellCompletion.Json.Basic
import ShellCompletion.Json.Quoted

/-!
# Writing JSON

Two layouts of a value: the compact one has no blank anywhere, the indented one has a line for each
member and each item, two blanks deeper than the line of its parent.
-/

namespace ShellCompletion.Json

/-- A string value as a literal. A string without a text is written as one half pair, which reads
back as a string without a text. -/
def stringChars : Option String → List Char
  | some text => quote text.toList
  | none => "\"\\ud800\"".toList

mutual

/-- The compact layout of a value. -/
def compactChars : Json → List Char
  | .null => "null".toList
  | .bool true => "true".toList
  | .bool false => "false".toList
  | .number spelling => spelling.toList
  | .string text => stringChars text
  | .array items => '[' :: compactItems items ++ [']']
  | .object members => '{' :: compactMembers members ++ ['}']

/-- The items of an array with commas between them. -/
def compactItems : List Json → List Char
  | [] => []
  | [item] => compactChars item
  | item :: rest => compactChars item ++ ',' :: compactItems rest

/-- The members of an object with commas between them. -/
def compactMembers : List (Option String × Json) → List Char
  | [] => []
  | [(key, value)] => stringChars key ++ ':' :: compactChars value
  | (key, value) :: rest =>
    stringChars key ++ ':' :: compactChars value ++ ',' :: compactMembers rest

end

/-- The compact text of a value. -/
def compact (value : Json) : String :=
  String.ofList value.compactChars

/-- A line break and the blanks that open a line at the given depth. -/
def lineStart (depth : Nat) : List Char :=
  '\n' :: List.replicate (2 * depth) ' '

mutual

/-- The indented layout of a value that stands at the given depth. -/
def indentedChars (depth : Nat) : Json → List Char
  | .null => "null".toList
  | .bool true => "true".toList
  | .bool false => "false".toList
  | .number spelling => spelling.toList
  | .string text => stringChars text
  | .array [] => ['[', ']']
  | .array (item :: rest) =>
    '[' :: indentedItems (depth + 1) (item :: rest) ++ lineStart depth ++ [']']
  | .object [] => ['{', '}']
  | .object (member :: rest) =>
    '{' :: indentedMembers (depth + 1) (member :: rest) ++ lineStart depth ++ ['}']

/-- The items of an array, each on a line of its own. -/
def indentedItems (depth : Nat) : List Json → List Char
  | [] => []
  | [item] => lineStart depth ++ indentedChars depth item
  | item :: rest => lineStart depth ++ indentedChars depth item ++ ',' :: indentedItems depth rest

/-- The members of an object, each on a line of its own. -/
def indentedMembers (depth : Nat) : List (Option String × Json) → List Char
  | [] => []
  | [(key, value)] => lineStart depth ++ stringChars key ++ ':' :: ' ' :: indentedChars depth value
  | (key, value) :: rest =>
    lineStart depth ++ stringChars key ++ ':' :: ' ' :: indentedChars depth value ++
      ',' :: indentedMembers depth rest

end

/-- The indented text of a value. -/
def indented (value : Json) : String :=
  String.ofList (value.indentedChars 0)

end ShellCompletion.Json
