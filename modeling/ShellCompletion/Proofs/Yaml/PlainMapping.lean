import ShellCompletion.Proofs.Yaml.PlainLines
import ShellCompletion.Yaml.Decode

/-!
# The document of lines with a key and a value

The tokens of such lines are a document with one mapping. Each entry takes the grammar from the keys
of the mapping back to them (`parse_entry`), gives two events, and these give the two nodes of the
entry. There are no anchors, so their numbering changes nothing.

Main statement: `read?_ofLines`.
-/

namespace ShellCompletion.Yaml

/-! ### Events -/

section Parse

variable {handles : TagHandles} {expectation : Expectation} {token : Token}
  {next expected : List Expectation} {tokens : List Token} {event : Option (Event String)}
  {events : List (Event String)}

/-- A token that the first expectation takes is used up. -/
theorem parse_of_take (h : expand handles expectation token = some (.take next event)) :
    parse handles (token :: tokens) (expectation :: expected) events =
      parse handles tokens (next ++ expected) (event.toList ++ events) := by
  rw [parse]
  split
  next heq => exact absurd (heq.symm.trans h) (by simp)
  next heq =>
    obtain rfl := Option.some.inj (heq.symm.trans h)
    rfl

/-- A token that the first expectation leaves stays for those that stand in its place. -/
theorem parse_of_leave (h : expand handles expectation token = some (.leave next event)) :
    parse handles (token :: tokens) (expectation :: expected) events =
      parse handles (token :: tokens) (next ++ expected) (event.toList ++ events) := by
  rw [parse]
  split
  next heq => exact absurd (heq.symm.trans h) (by simp)
  next heq =>
    obtain rfl := Option.some.inj (heq.symm.trans h)
    rfl

end Parse

namespace Entry

/-- The events of an entry. -/
def events {ref : Type} (entry : Entry) : List (Event ref) :=
  [.scalar none { text := entry.key }, .scalar none { text := entry.value }]

/-- The events of a mapping. -/
def mappingEvents {ref : Type} (entries : List Entry) : List (Event ref) :=
  .mappingStart none :: entries.flatMap events ++ [.mappingEnd]

end Entry

/-- A scalar without properties is an event of its own. -/
theorem parse_scalar (handles : TagHandles) (text : String) (tokens : List Token)
    (expected : List Expectation) (events : List (Event String)) :
    parse handles (.scalar text .plain :: tokens) (.plainNode .loose :: expected) events =
      parse handles tokens expected (.scalar none { text } :: events) := by
  have hexpand : expand handles (.plainNode .loose) (.scalar text .plain) =
      some (.take [] (some (.scalar none { text }))) := rfl
  exact parse_of_take hexpand

/-- The tokens of an entry give its events, and another key is expected behind it. -/
theorem parse_entry (handles : TagHandles) (entry : Entry) (tokens : List Token)
    (expected : List Expectation) (events : List (Event String)) :
    parse handles (entry.tokens ++ tokens) (.blockKeys :: expected) events =
      parse handles tokens (.blockKeys :: expected) (entry.events.reverse ++ events) := by
  have hkey : expand handles .blockKeys .key =
      some (.take [.blockKey, .blockValue, .blockKeys]) := rfl
  have hkeyNode : expand handles .blockKey (.scalar entry.key .plain) =
      some (.leave [.plainNode .loose]) := rfl
  have hvalue : expand handles .blockValue .value = some (.take [.blockValueNode]) := rfl
  have hvalueNode : expand handles .blockValueNode (.scalar entry.value .plain) =
      some (.leave [.plainNode .loose]) := rfl
  calc
    _ = parse handles (.scalar entry.key .plain :: .value :: .scalar entry.value .plain :: tokens)
          (.blockKey :: .blockValue :: .blockKeys :: expected) events := parse_of_take hkey
    _ = parse handles (.scalar entry.key .plain :: .value :: .scalar entry.value .plain :: tokens)
          (.plainNode .loose :: .blockValue :: .blockKeys :: expected) events :=
            parse_of_leave hkeyNode
    _ = parse handles (.value :: .scalar entry.value .plain :: tokens)
          (.blockValue :: .blockKeys :: expected)
          (.scalar none { text := entry.key } :: events) := parse_scalar ..
    _ = parse handles (.scalar entry.value .plain :: tokens)
          (.blockValueNode :: .blockKeys :: expected)
          (.scalar none { text := entry.key } :: events) := parse_of_take hvalue
    _ = parse handles (.scalar entry.value .plain :: tokens)
          (.plainNode .loose :: .blockKeys :: expected)
          (.scalar none { text := entry.key } :: events) := parse_of_leave hvalueNode
    _ = _ := parse_scalar ..

/-- The tokens of entries in a row give their events. -/
theorem parse_entries (handles : TagHandles) (entries : List Entry) (tokens : List Token)
    (expected : List Expectation) (events : List (Event String)) :
    parse handles (entries.flatMap Entry.tokens ++ tokens) (.blockKeys :: expected) events =
      parse handles tokens (.blockKeys :: expected)
        ((entries.flatMap Entry.events).reverse ++ events) := by
  induction entries generalizing events with
  | nil => rfl
  | cons entry entries ih =>
    rw [List.flatMap_cons, List.append_assoc, parse_entry, ih, List.flatMap_cons,
      List.reverse_append, List.append_assoc]

/-- The tokens of a mapping are its events. -/
theorem eventsOf?_mapping (entries : List Entry) :
    eventsOf? (.blockMappingStart :: entries.flatMap Entry.tokens ++ [.blockEnd, .streamEnd]) =
      some (Entry.mappingEvents entries) := by
  have hstart : expand defaultHandles (.plainNode .block) .blockMappingStart =
      some (.take [.blockKeys] (some (.mappingStart none))) := rfl
  have hend : expand defaultHandles .blockKeys .blockEnd =
      some (.take [] (some .mappingEnd)) := rfl
  have hfinish : expand defaultHandles .finish .streamEnd = some (.take []) := rfl
  calc
    _ = parse defaultHandles
          (.blockMappingStart :: (entries.flatMap Entry.tokens ++ [.blockEnd, .streamEnd]))
          [.plainNode .block, .finish] [] := rfl
    _ = parse defaultHandles (entries.flatMap Entry.tokens ++ [.blockEnd, .streamEnd])
          [.blockKeys, .finish] [.mappingStart none] := parse_of_take hstart
    _ = parse defaultHandles [.blockEnd, .streamEnd] [.blockKeys, .finish]
          ((entries.flatMap Entry.events).reverse ++ [.mappingStart none]) := parse_entries ..
    _ = parse defaultHandles [.streamEnd] [.finish]
          (.mappingEnd :: ((entries.flatMap Entry.events).reverse ++ [.mappingStart none])) :=
      parse_of_take hend
    _ = parse defaultHandles [] []
          (.mappingEnd :: ((entries.flatMap Entry.events).reverse ++ [.mappingStart none])) :=
      parse_of_take hfinish
    _ = _ := by
      rw [parse, Entry.mappingEvents]
      simp

/-! ### The document -/

/-- Entries have no anchors to be numbered. -/
theorem numberAnchors_entries (names : AnchorNames) (entries : List Entry)
    (events : List (Event Nat)) (rest : List (Event String)) :
    numberAnchors names events (entries.flatMap Entry.events ++ rest) =
      numberAnchors names ((entries.flatMap Entry.events).reverse ++ events) rest := by
  induction entries generalizing events with
  | nil => rfl
  | cons entry entries ih =>
    rw [List.flatMap_cons, List.flatMap_cons, List.append_assoc, List.reverse_append,
      List.append_assoc, ← ih]
    rfl

/-- A mapping of words has no anchors to be numbered. -/
theorem numberAnchors_mapping (entries : List Entry) :
    numberAnchors [] [] (Entry.mappingEvents entries) = some (Entry.mappingEvents entries) := by
  have hentries := numberAnchors_entries [] entries [.mappingStart none] [.mappingEnd]
  refine hentries.trans ?_
  rw [numberAnchors, numberAnchors, Entry.mappingEvents]
  simp

namespace Entry

/-- The nodes of an entry. -/
def nodes (entry : Entry) : Node × Node :=
  (.scalar none { text := entry.key }, .scalar none { text := entry.value })

/-- The document of a mapping. -/
def document (entries : List Entry) : Document where
  root := some (.mapping none (entries.map nodes))
  size := (mappingEvents entries : List (Event Nat)).length
  anchors := []

end Entry

/-- The events of entries in a row give their nodes, which join the mapping. -/
theorem nodeOf?_entries (entries : List Entry) (done : List (Node × Node))
    (rest : List (Event Nat)) :
    nodeOf? [.mapping none done none] (entries.flatMap Entry.events ++ rest) =
      nodeOf? [.mapping none ((entries.map Entry.nodes).reverse ++ done) none] rest := by
  induction entries generalizing done with
  | nil => rfl
  | cons entry entries ih =>
    rw [List.flatMap_cons, List.append_assoc, List.map_cons, List.reverse_cons, List.append_assoc]
    exact ih (entry.nodes :: done)

/-- The events of a mapping give its node. -/
theorem nodeOf?_mapping (entries : List Entry) :
    nodeOf? [] (Entry.mappingEvents entries) = some (.mapping none (entries.map Entry.nodes)) := by
  refine (nodeOf?_entries entries [] [.mappingEnd]).trans ?_
  rw [List.append_nil, nodeOf?]
  simp [build, place]

/-- The nodes of entries carry no anchors. -/
theorem anchorsOfEntries_nodes (entries : List Entry) :
    Node.anchorsOfEntries (entries.map Entry.nodes) = [] := by
  induction entries with
  | nil => rw [List.map_nil, Node.anchorsOfEntries]
  | cons entry entries ih =>
    rw [List.map_cons, Entry.nodes, Node.anchorsOfEntries, ih, Node.anchors, Node.anchors]
    rfl

/-- **Lines of entries are read as a mapping of plain scalars.** -/
theorem read?_ofLines {entries : List Entry} (h : entries ≠ []) :
    Document.read? (Text.ofLines (entries.map Entry.line)) = some (Entry.document entries) := by
  have hanchors : (Node.mapping none (entries.map Entry.nodes)).anchors = [] := by
    rw [Node.anchors, anchorsOfEntries_nodes]
    rfl
  unfold Document.read?
  rw [tokens?_ofLines h]
  simp only [Option.bind_eq_bind, Option.bind_some, eventsOf?_mapping, numberAnchors_mapping,
    nodeOf?_mapping, hanchors]
  rfl

end ShellCompletion.Yaml
