import ShellCompletion.Yaml.Document

/-!
# Reading values from a document

The readers of the values that a document may hold. A reader may follow aliases, but only so many in
all for a document of a given size, so that a short text cannot spell an endless value; and
collections may be nested only to a limited depth. What is passed over is not read.
-/

namespace ShellCompletion.Yaml

/-- A reader of values: it knows the document, counts the aliases that it has followed, and may
fail. -/
abbrev Decode := ReaderT Document (StateT Nat Option)

namespace Decode

/-- The number of aliases that may be followed for each event of a document. -/
def aliasesPerEvent : Nat := 100

/-- The number of levels that a reader starts with. -/
def maxLevels : Nat := 128

/-- The node itself, or the one that an alias leads to. -/
def resolve : Node → Decode Node
  | .alias number => do
    let document ← read
    let followed := (← get) + 1
    if document.size * aliasesPerEvent < followed then
      failure
    set followed
    match document.anchors.lookup number with
    | some node => return node
    | none => failure
  | node => return node

/-- The bytes of a tag that belongs to the format. -/
def standardTag (name : String) : TagBytes :=
  bytesOf ("tag:yaml.org,2002:" ++ name)

/-- A plain scalar without text, which stands for a value that is not there. -/
def isBlankScalar (scalar : Scalar) : Bool :=
  scalar.style == .plain && scalar.text == ""

/-- The text spells the absence of a value. -/
def isNullText (text : String) : Bool :=
  text == "null" || text == "Null" || text == "NULL" || text == "~"

/-- A scalar. -/
def scalar (node : Node) : Decode Scalar := do
  match ← resolve node with
  | .scalar _ content => return content
  | _ => failure

/-- A text; every scalar is one. -/
def text (node : Node) : Decode String :=
  return (← scalar node).text

/-- A text that may be absent. -/
def optionalText (node : Node) : Decode (Option String) := do
  let scalar ← scalar node
  if scalar.style ≠ .plain then
    return some scalar.text
  if scalar.tag = some (standardTag "null") then
    if isNullText scalar.text then return none else failure
  if scalar.tag.isNone && (scalar.text == "" || isNullText scalar.text) then
    return none
  return some scalar.text

/-- The scalar may be a value of the standard type `name`: it is plain, or a literal block with that
tag. -/
def mayBe (name : String) (scalar : Scalar) : Bool :=
  scalar.style == .plain ||
    (scalar.style == .literal && scalar.tag == some (standardTag name))

/-- A truth value. -/
def bool (node : Node) : Decode Bool := do
  let scalar ← scalar node
  if !mayBe "bool" scalar then
    failure
  match scalar.text with
  | "true" | "True" | "TRUE" => return true
  | "false" | "False" | "FALSE" => return false
  | _ => failure

/-- The value of a digit of either case. -/
def digitValue? (base : Nat) (c : Char) : Option Nat :=
  (Json.hexValue? c).filter (· < base)

/-- A number without a sign in the given base. -/
def digits? (base : Nat) : List Char → Option Nat
  | [] => none
  | cs => cs.foldlM (fun n c => (digitValue? base c).map (n * base + ·)) 0

/-- The number that a text spells: in base ten without leading zeros, or in another base behind a
mark for that. A plus sign may stand before it. -/
def naturalOfText? (text : String) : Option Nat :=
  let cs := text.toList
  let unsigned := if cs.head? = some '+' then cs.tail else cs
  match unsigned with
  | '0' :: 'x' :: digits => digits? 16 digits
  | '0' :: 'o' :: digits => digits? 8 digits
  | '0' :: 'b' :: digits => digits? 2 digits
  | '0' :: _ :: _ => none
  | digits => digits? 10 digits

/-- A number below `bound`. -/
def natural (bound : Nat) (node : Node) : Decode Nat := do
  let scalar ← scalar node
  if !mayBe "int" scalar then
    failure
  match naturalOfText? scalar.text with
  | some n => if n < bound then return n else failure
  | none => failure

/-- The words of a tag of the document's own: without its exclamation mark, unless it is nothing
else. -/
def ownTag? (scalar : Scalar) : Option String := do
  match ← scalar.tag with
  | 33 :: rest => String.fromUTF8? ⟨(if rest.isEmpty then [33] else rest).toArray⟩
  | _ => none

/-- One of a fixed list of words: the text of a scalar, or the tag of a scalar that is absent. -/
def word (node : Node) : Decode String := do
  let scalar ← scalar node
  match ownTag? scalar with
  | some word =>
    if scalar.style == .plain && (scalar.text == "" || isNullText scalar.text) then return word
    else failure
  | none => return scalar.text

/-- The items of a sequence. An absent value has none. -/
def items (levels : Nat) (node : Node) : Decode (List Node) := do
  match ← resolve node with
  | .sequence _ items => if levels = 0 then failure else return items
  | .scalar _ content => if isBlankScalar content then return [] else failure
  | _ => failure

/-- The entries of a mapping under the given names, no two under one name; what is under other names
is passed over. An absent value has no entries. -/
def fields (names : List String) (levels : Nat) (node : Node) :
    Decode (List (String × Node)) := do
  match ← resolve node with
  | .mapping _ entries =>
    if levels = 0 then
      failure
    let entries ← entries.mapM fun entry => return (← text entry.1, entry.2)
    let known := entries.filter fun entry => entry.1 ∈ names
    if (known.map (·.1)).Nodup then return known else failure
  | .scalar _ content => if isBlankScalar content then return [] else failure
  | _ => failure

/-- The reading of a field, or the given value if the field is left out. -/
def field {α : Type} (fields : List (String × Node)) (name : String) (missing : Option α)
    (reader : Node → Decode α) : Decode α :=
  match fields.lookup name with
  | some node => reader node
  | none =>
    match missing with
    | some value => return value
    | none => failure

/-- Reads the node of a document. -/
def run {α : Type} (reader : Node → Decode α) (missing : Option α) (document : Document) :
    Option α :=
  match document.root with
  | some node => (StateT.run (ReaderT.run (reader node) document) 0).map (·.1)
  | none => missing

end Decode

end ShellCompletion.Yaml
