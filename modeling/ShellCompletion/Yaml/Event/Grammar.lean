import ShellCompletion.Yaml.Event.Basic

/-!
# From tokens to events

The grammar of YAML, as a machine that keeps a list of what it expects. The next token decides what
the first expectation turns into: it may be taken, or be left for the expectations that stand in its
place. The latter are always of less weight, so the machine comes to an end.

Main statement: `weight_lt_of_expand`.
-/

namespace ShellCompletion.Yaml

/-- Where a node stands, which decides how it may be written. -/
inductive NodePlace where
  /-- Inside brackets or braces. -/
  | flow
  /-- In a block collection. -/
  | block
  /-- In a block mapping, where a sequence need not be indented. -/
  | loose
  deriving DecidableEq, Repr

/-- What precedes a node. -/
structure NodeProperties where
  /-- The name of its anchor. -/
  anchor : Option String := none
  /-- Its tag. -/
  tag : Option TagBytes := none
  deriving DecidableEq, Repr

/-- Something that the grammar expects. -/
inductive Expectation where
  /-- The content of a document behind its opening line. -/
  | content
  /-- Nothing more than lines that close the document. -/
  | finish
  /-- A node. -/
  | node (place : NodePlace) (properties : NodeProperties)
  /-- The items of a block sequence and its end. -/
  | blockItems
  /-- What stands behind the dash of an item. -/
  | blockItem
  /-- The items of a sequence that is not indented. -/
  | looseItems
  /-- What stands behind the dash of such an item. -/
  | looseItem
  /-- The keys and values of a block mapping and its end. -/
  | blockKeys
  /-- What stands behind the sign of a key. -/
  | blockKey
  /-- The value of a key. -/
  | blockValue
  /-- What stands behind the sign of a value. -/
  | blockValueNode
  /-- The items of a sequence in brackets and its end; the first one has no comma before it. -/
  | flowItems (first : Bool)
  /-- An item of a sequence in brackets, and what follows. -/
  | flowItem
  /-- The key of a mapping that is an item of a sequence in brackets. -/
  | pairKey
  /-- Its value. -/
  | pairValue
  /-- What stands behind the sign of its value. -/
  | pairValueNode
  /-- The end of such a mapping. -/
  | pairEnd
  /-- The keys and values of a mapping in braces and its end; the first one has no comma before
  it. -/
  | flowKeys (first : Bool)
  /-- A key of a mapping in braces with its value, and what follows. -/
  | flowKey
  /-- What stands behind the sign of such a key. -/
  | flowKeyNode
  /-- The value of such a key. -/
  | flowValue
  /-- What stands behind the sign of such a value. -/
  | flowValueNode
  /-- A value that is not written. -/
  | noValue
  deriving DecidableEq, Repr

namespace Expectation

/-- A node without properties. -/
def plainNode (place : NodePlace) : Expectation :=
  node place {}

/-- The weight of an expectation: more than that of what replaces it without taking a token. -/
def weight : Expectation → Nat
  | node _ _ => 2
  | content | blockItem | looseItem | blockKey | blockValueNode | pairKey | pairValueNode
  | flowKeyNode | flowValueNode => 3
  | flowItem | flowKey => 5
  | flowItems true | flowKeys true => 6
  | _ => 1

end Expectation

/-- The weight of all that is expected. -/
def totalWeight : List Expectation → Nat
  | [] => 0
  | expectation :: rest => expectation.weight + totalWeight rest

/-- Weights of expectations in two lists add up. -/
theorem totalWeight_append (a b : List Expectation) :
    totalWeight (a ++ b) = totalWeight a + totalWeight b := by
  induction a with
  | nil => simp [totalWeight]
  | cons expectation rest ih => simp [totalWeight, ih, Nat.add_assoc]

/-- What an expectation turns into. -/
structure Expansion where
  /-- The token is taken. -/
  takes : Bool
  /-- What is known of the document by it. -/
  event : Option (Event String) := none
  /-- What is expected in its place. -/
  expected : List Expectation := []

namespace Expansion

/-- The token is taken. -/
def take (expected : List Expectation) (event : Option (Event String) := none) : Expansion :=
  { takes := true, event, expected }

/-- The token is left. -/
def leave (expected : List Expectation) (event : Option (Event String) := none) : Expansion :=
  { takes := false, event, expected }

/-- The token is left to a node. -/
def toNode (place : NodePlace) : Expansion :=
  leave [.plainNode place]

/-- The token is left, and what was expected is an empty scalar. -/
def absent : Expansion :=
  leave [] (some .empty)

end Expansion

/-- Tag handles with what they stand for. -/
abbrev TagHandles := List (String × TagBytes)

/-- The handles that every document has. -/
def defaultHandles : TagHandles :=
  [("!", bytesOf "!"), ("!!", bytesOf "tag:yaml.org,2002:")]

/-- The tag that a written tag stands for. -/
def WrittenTag.resolve? (handles : TagHandles) (tag : WrittenTag) : Option TagBytes :=
  if tag.handle = "" then some tag.suffix
  else (handles.lookup tag.handle).map (· ++ tag.suffix)

open Expansion in
/-- What a node turns into. Properties alone make an empty scalar. For a scalar that is written, a
bare exclamation mark is no tag. -/
def expandNode (handles : TagHandles) (place : NodePlace) (properties : NodeProperties)
    (token : Token) : Option Expansion :=
  let orEmpty : Option Expansion :=
    if properties = {} then none
    else some (leave [] (some (.scalar properties.anchor { tag := properties.tag })))
  match token with
  | .alias name => if properties = {} then some (take [] (some (.alias name))) else orEmpty
  | .anchor name =>
    if properties.anchor = none then
      some (take [.node place { properties with anchor := some name }])
    else orEmpty
  | .tag tag =>
    if properties.tag = none then
      (tag.resolve? handles).map fun tag => take [.node place { properties with tag := some tag }]
    else orEmpty
  | .scalar text style =>
    let tag := properties.tag.filter (· ≠ bytesOf "!")
    some (take [] (some (.scalar properties.anchor { tag, text, style })))
  | .flowSequenceStart => some (take [.flowItems true] (some (.sequenceStart properties.anchor)))
  | .flowMappingStart => some (take [.flowKeys true] (some (.mappingStart properties.anchor)))
  | .blockItem =>
    if place = .loose then some (leave [.looseItems] (some (.sequenceStart properties.anchor)))
    else orEmpty
  | .blockSequenceStart =>
    if place = .flow then orEmpty
    else some (take [.blockItems] (some (.sequenceStart properties.anchor)))
  | .blockMappingStart =>
    if place = .flow then orEmpty
    else some (take [.blockKeys] (some (.mappingStart properties.anchor)))
  | _ => orEmpty

open Expansion in
/-- What an expectation turns into when a token comes next; `none` if the token cannot come. -/
def expand (handles : TagHandles) (expectation : Expectation) (token : Token) :
    Option Expansion :=
  match expectation, token with
  | .content, .version _ _ | .content, .handle _ _ | .content, .documentStart
  | .content, .documentEnd | .content, .streamEnd => some absent
  | .content, _ => some (toNode .block)
  | .finish, .documentEnd => some (take [.finish])
  | .finish, .streamEnd => some (take [])
  | .finish, _ => none
  | .node place properties, token => expandNode handles place properties token
  | .blockItems, .blockItem => some (take [.blockItem, .blockItems])
  | .blockItems, .blockEnd => some (take [] (some .sequenceEnd))
  | .blockItems, _ => none
  | .blockItem, .blockItem | .blockItem, .blockEnd => some absent
  | .blockItem, _ => some (toNode .block)
  | .looseItems, .blockItem => some (take [.looseItem, .looseItems])
  | .looseItems, _ => some (leave [] (some .sequenceEnd))
  | .looseItem, .blockItem | .looseItem, .key | .looseItem, .value | .looseItem, .blockEnd =>
    some absent
  | .looseItem, _ => some (toNode .block)
  | .blockKeys, .key => some (take [.blockKey, .blockValue, .blockKeys])
  | .blockKeys, .blockEnd => some (take [] (some .mappingEnd))
  | .blockKeys, _ => none
  | .blockKey, .key | .blockKey, .value | .blockKey, .blockEnd => some absent
  | .blockKey, _ => some (toNode .loose)
  | .blockValue, .value => some (take [.blockValueNode])
  | .blockValue, _ => some absent
  | .blockValueNode, .key | .blockValueNode, .value | .blockValueNode, .blockEnd => some absent
  | .blockValueNode, _ => some (toNode .loose)
  | .flowItems _, .flowSequenceEnd => some (take [] (some .sequenceEnd))
  | .flowItems true, _ => some (leave [.flowItem])
  | .flowItems false, .comma => some (take [.flowItem])
  | .flowItems false, _ => none
  | .flowItem, .key =>
    some (take [.pairKey, .pairValue, .pairEnd, .flowItems false] (some (.mappingStart none)))
  | .flowItem, .flowSequenceEnd => some (take [] (some .sequenceEnd))
  | .flowItem, _ => some (leave [.plainNode .flow, .flowItems false])
  | .pairKey, .value | .pairKey, .comma | .pairKey, .flowSequenceEnd =>
    some (take [] (some .empty))
  | .pairKey, _ => some (toNode .flow)
  | .pairValue, .value => some (take [.pairValueNode])
  | .pairValue, _ => some absent
  | .pairValueNode, .comma | .pairValueNode, .flowSequenceEnd => some absent
  | .pairValueNode, _ => some (toNode .flow)
  | .pairEnd, _ => some (leave [] (some .mappingEnd))
  | .flowKeys _, .flowMappingEnd => some (take [] (some .mappingEnd))
  | .flowKeys true, _ => some (leave [.flowKey])
  | .flowKeys false, .comma => some (take [.flowKey])
  | .flowKeys false, _ => none
  | .flowKey, .key => some (take [.flowKeyNode, .flowValue, .flowKeys false])
  | .flowKey, .flowMappingEnd => some (take [] (some .mappingEnd))
  | .flowKey, _ => some (leave [.plainNode .flow, .noValue, .flowKeys false])
  | .flowKeyNode, .value | .flowKeyNode, .comma | .flowKeyNode, .flowMappingEnd => some absent
  | .flowKeyNode, _ => some (toNode .flow)
  | .flowValue, .value => some (take [.flowValueNode])
  | .flowValue, _ => some absent
  | .flowValueNode, .comma | .flowValueNode, .flowMappingEnd => some absent
  | .flowValueNode, _ => some (toNode .flow)
  | .noValue, _ => some absent

/-- Left to a node, a token is left to something lighter. -/
theorem weight_lt_of_expandNode {handles : TagHandles} {place : NodePlace}
    {properties : NodeProperties} {token : Token} {expansion : Expansion}
    (h : expandNode handles place properties token = some expansion)
    (left : expansion.takes = false) : totalWeight expansion.expected < 2 := by
  unfold expandNode at h
  dsimp only at h
  split at h <;> (try split at h) <;> (try split at h) <;>
    simp only [Option.map_eq_some_iff, Option.some.injEq, reduceCtorEq] at h
  all_goals first
    | (obtain ⟨_, _, rfl⟩ := h
       simp [Expansion.take] at left)
    | (subst h
       simp_all [Expansion.leave, totalWeight, Expectation.weight])

/-- What replaces an expectation without taking a token is of less weight. -/
theorem weight_lt_of_expand {handles : TagHandles} {expectation : Expectation} {token : Token}
    {expansion : Expansion} (h : expand handles expectation token = some expansion)
    (left : expansion.takes = false) :
    totalWeight expansion.expected < expectation.weight := by
  unfold expand at h
  split at h
  all_goals first
    | exact weight_lt_of_expandNode h left
    | (cases h; done)
    | (obtain rfl := Option.some.inj h
       simp_all [Expansion.take, Expansion.leave, Expansion.absent, Expansion.toNode,
         Expectation.plainNode, totalWeight, Expectation.weight])

/-- Runs the machine: all that is expected has to come, and nothing else. -/
def parse (handles : TagHandles) (tokens : List Token) (expected : List Expectation)
    (events : List (Event String)) : Option (List (Event String)) :=
  match tokens, expected with
  | [], [] => some events.reverse
  | token :: rest, expectation :: others =>
    match _h : expand handles expectation token with
    | none => none
    | some expansion =>
      let events := expansion.event.toList ++ events
      if _taken : expansion.takes then parse handles rest (expansion.expected ++ others) events
      else parse handles (token :: rest) (expansion.expected ++ others) events
  | _, _ => none
termination_by (tokens.length, totalWeight expected)
decreasing_by
  · exact Prod.Lex.left _ _ (by simp)
  · have := weight_lt_of_expand _h (by simpa using _taken)
    exact Prod.Lex.right _ (by simp only [totalWeight, totalWeight_append]; omega)

/-- The greatest minor number of a version that is understood. -/
def isKnownVersion (major minor : Nat) : Bool :=
  major == 1 && (minor == 1 || minor == 2)

/-- Reads the directives before a document and the line that opens it. `versioned` says that the
version has been given. -/
def parseDirectives (versioned : Bool) (handles : TagHandles) :
    List Token → Option (TagHandles × List Token)
  | .version major minor :: rest =>
    if versioned || !isKnownVersion major minor then none
    else parseDirectives true handles rest
  | .handle handle expansion :: rest =>
    if (handles.lookup handle).isSome then none
    else parseDirectives versioned (handles ++ [(handle, expansion)]) rest
  | .documentStart :: rest => some (handles, rest)
  | _ => none

/-- The events of the only document of a stream; `none` if the stream is not well formed or has
more than one document. A stream without a document has no events. -/
def eventsOf? (tokens : List Token) : Option (List (Event String)) :=
  match tokens with
  | [.streamEnd] => some []
  | .version _ _ :: _ | .handle _ _ :: _ | .documentStart :: _ => do
    let (handles, tokens) ← parseDirectives false [] tokens
    parse (handles ++ defaultHandles) tokens [.content, .finish] []
  | _ => parse defaultHandles tokens [.plainNode .block, .finish] []

end ShellCompletion.Yaml
