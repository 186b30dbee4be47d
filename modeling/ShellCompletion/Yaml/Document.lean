import ShellCompletion.Yaml.Event.Grammar
import ShellCompletion.Yaml.Token.Scanner

/-!
# YAML documents

A document as a tree of nodes. An alias stays an alias, for the anchor it means may contain it; the
document tells the node that an alias leads to.

Anchors are numbered: an anchor gets the number of names that have been used for anchors before it.
So when a name is used again, the number that it gets then is also that of the next new name, and an
alias leads to the last anchor with its number.
-/

namespace ShellCompletion.Yaml

/-! ## Anchors by number -/

/-- The names of anchors, each with the number of the last anchor of that name. -/
abbrev AnchorNames := List (String × Nat)

/-- Notes the number of an anchor under its name. -/
def AnchorNames.note (names : AnchorNames) (name : String) (number : Nat) : AnchorNames :=
  match names with
  | [] => [(name, number)]
  | entry :: rest =>
    if entry.1 = name then (name, number) :: rest else entry :: note rest name number

/-- The number of an anchor, if there is one, and the names with it. -/
def AnchorNames.number (names : AnchorNames) (anchor : Option String) :
    Option Nat × AnchorNames :=
  match anchor with
  | some name => (some names.length, names.note name names.length)
  | none => (none, names)

/-- The events with numbers for anchors; `none` if an alias has no anchor before it. -/
def numberAnchors (names : AnchorNames) (events : List (Event Nat)) :
    List (Event String) → Option (List (Event Nat))
  | [] => some events.reverse
  | .alias name :: rest => do
    numberAnchors names (.alias (← names.lookup name) :: events) rest
  | .scalar anchor content :: rest =>
    let (anchor, names) := names.number anchor
    numberAnchors names (.scalar anchor content :: events) rest
  | .sequenceStart anchor :: rest =>
    let (anchor, names) := names.number anchor
    numberAnchors names (.sequenceStart anchor :: events) rest
  | .mappingStart anchor :: rest =>
    let (anchor, names) := names.number anchor
    numberAnchors names (.mappingStart anchor :: events) rest
  | .sequenceEnd :: rest => numberAnchors names (.sequenceEnd :: events) rest
  | .mappingEnd :: rest => numberAnchors names (.mappingEnd :: events) rest

/-! ## Nodes -/

/-- A node of a document. -/
inductive Node where
  /-- A reference to an anchor. -/
  | alias (number : Nat)
  /-- A scalar. -/
  | scalar (anchor : Option Nat) (content : Scalar)
  /-- A sequence. -/
  | sequence (anchor : Option Nat) (items : List Node)
  /-- A mapping: keys and values in order. -/
  | mapping (anchor : Option Nat) (entries : List (Node × Node))
  deriving Inhabited

/-- A collection that is open, with what is already in it, the latest first. -/
inductive OpenNode where
  /-- A sequence. -/
  | sequence (anchor : Option Nat) (items : List Node)
  /-- A mapping; a key may still be without its value. -/
  | mapping (anchor : Option Nat) (entries : List (Node × Node)) (key : Option Node)

/-- Puts a complete node into the innermost open collection, or at the top. -/
def place (node : Node) : List OpenNode → List OpenNode × Option Node
  | [] => ([], some node)
  | .sequence anchor items :: outer => (.sequence anchor (node :: items) :: outer, none)
  | .mapping anchor entries none :: outer => (.mapping anchor entries (some node) :: outer, none)
  | .mapping anchor entries (some key) :: outer =>
    (.mapping anchor ((key, node) :: entries) none :: outer, none)

/-- Takes one event. -/
def build (stack : List OpenNode) : Event Nat → Option (List OpenNode × Option Node)
  | .alias number => some (place (.alias number) stack)
  | .scalar anchor content => some (place (.scalar anchor content) stack)
  | .sequenceStart anchor => some (.sequence anchor [] :: stack, none)
  | .mappingStart anchor => some (.mapping anchor [] none :: stack, none)
  | .sequenceEnd =>
    match stack with
    | .sequence anchor items :: outer => some (place (.sequence anchor items.reverse) outer)
    | _ => none
  | .mappingEnd =>
    match stack with
    | .mapping anchor entries none :: outer => some (place (.mapping anchor entries.reverse) outer)
    | _ => none

/-- The node that events spell. -/
def nodeOf? (stack : List OpenNode) : List (Event Nat) → Option Node
  | [] => none
  | event :: rest =>
    match build stack event with
    | none => none
    | some (_, some node) => if rest.isEmpty then some node else none
    | some (stack, none) => nodeOf? stack rest

namespace Node

mutual

/-- The anchors of a node in the order in which they are written, each with its number. -/
def anchors : Node → List (Nat × Node)
  | .alias _ => []
  | .scalar anchor content => (anchor.map fun n => (n, Node.scalar anchor content)).toList
  | .sequence anchor items =>
    (anchor.map fun n => (n, Node.sequence anchor items)).toList ++ anchorsOfItems items
  | .mapping anchor entries =>
    (anchor.map fun n => (n, Node.mapping anchor entries)).toList ++ anchorsOfEntries entries

/-- The anchors of the items of a sequence. -/
def anchorsOfItems : List Node → List (Nat × Node)
  | [] => []
  | node :: rest => node.anchors ++ anchorsOfItems rest

/-- The anchors of the entries of a mapping. -/
def anchorsOfEntries : List (Node × Node) → List (Nat × Node)
  | [] => []
  | (key, value) :: rest => key.anchors ++ value.anchors ++ anchorsOfEntries rest

end

end Node

/-! ## Documents -/

/-- A document. -/
structure Document where
  /-- Its node; there is none in a stream without a document. -/
  root : Option Node
  /-- The number of events that spell it. -/
  size : Nat
  /-- Its anchors, the last one first, each with its number. -/
  anchors : List (Nat × Node)

/-- The only document of a text. -/
def Document.read? (text : String) : Option Document := do
  let events ← numberAnchors [] [] (← eventsOf? (← tokens? text))
  if events.isEmpty then
    return { root := none, size := 1, anchors := [] }
  let root ← nodeOf? [] events
  return { root, size := events.length, anchors := root.anchors.reverse }

end ShellCompletion.Yaml
