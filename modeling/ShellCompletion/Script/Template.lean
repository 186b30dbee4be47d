import ShellCompletion.Text.Lines

/-!
# Templates

A template is text with placeholders: a name in capitals, digits and underscores between two pairs
of `@`. A pair of `@` that does not open a placeholder is part of the text.

Main statement: `source_parse`, nothing of the source is lost when it is taken apart.
-/

namespace ShellCompletion.Script

/-- A piece of a template. -/
inductive Segment where
  /-- Text that is copied. -/
  | text (content : List Char)
  /-- A placeholder. -/
  | slot (name : List Char)
  deriving DecidableEq, Repr

/-- A character of a placeholder's name. -/
def isSlotChar (c : Char) : Bool :=
  c.isUpper || c.isDigit || c == '_'

/-- A name that a placeholder may have. -/
def isSlotName (name : List Char) : Bool :=
  name != [] && name.all isSlotChar

/-- A list of characters cut at its first pair of `@`: what comes before the pair and what comes
behind it. -/
def cutAtMarks? : List Char → Option (List Char × List Char)
  | '@' :: '@' :: rest => some ([], rest)
  | c :: rest => (cutAtMarks? rest).map fun parts => (c :: parts.1, parts.2)
  | [] => none

/-- The two parts of a cut, with the pair between them, are the whole. -/
theorem eq_append_of_cutAtMarks? {cs before after : List Char}
    (h : cutAtMarks? cs = some (before, after)) : cs = before ++ '@' :: '@' :: after := by
  fun_induction cutAtMarks? cs generalizing before with
  | case1 rest => simp_all
  | case2 c rest _ ih =>
    obtain ⟨⟨b, a⟩, hb, he⟩ := Option.map_eq_some_iff.1 h
    obtain ⟨rfl, rfl⟩ := Prod.mk.inj he
    simp [ih hb]
  | case3 => simp at h

/-- What follows a cut is shorter than the whole. -/
theorem length_lt_of_cutAtMarks? {cs before after : List Char}
    (h : cutAtMarks? cs = some (before, after)) : after.length < cs.length := by
  simp [eq_append_of_cutAtMarks? h]
  omega

/-- A piece of text, unless it is empty. -/
def textSegment (content : List Char) : List Segment :=
  if content = [] then [] else [.text content]

/-- Takes a template apart. Behind a pair of `@` that opens no placeholder the search goes on with
the very next character. -/
def parseTemplate (source : List Char) : List Segment :=
  match _h : cutAtMarks? source with
  | none => textSegment source
  | some (before, after) =>
    match _h' : cutAtMarks? after with
    | some (name, rest) =>
      if isSlotName name then textSegment before ++ .slot name :: parseTemplate rest
      else .text (before ++ ['@', '@']) :: parseTemplate after
    | none => .text (before ++ ['@', '@']) :: parseTemplate after
termination_by source.length
decreasing_by
  · have := length_lt_of_cutAtMarks? _h
    have := length_lt_of_cutAtMarks? _h'
    omega
  · exact length_lt_of_cutAtMarks? _h
  · exact length_lt_of_cutAtMarks? _h

namespace Segment

/-- The piece as it stands in a source. -/
def source : Segment → List Char
  | text content => content
  | slot name => '@' :: '@' :: name ++ ['@', '@']

/-- The piece with its placeholder filled in; the first value of a name counts, and a name without
a value gives nothing. -/
def render (values : List (String × String)) : Segment → List Char
  | text content => content
  | slot name =>
    match values.find? fun value => value.1 = String.ofList name with
    | some value => value.2.toList
    | none => []

end Segment

/-- A segment of text is the source that it was cut from. -/
@[simp]
theorem flatMap_source_textSegment (content : List Char) :
    (textSegment content).flatMap Segment.source = content := by
  unfold textSegment
  split <;> simp_all [Segment.source]

/-- The pieces of a template give its source back. -/
theorem source_parse (source : List Char) :
    (parseTemplate source).flatMap Segment.source = source := by
  fun_induction parseTemplate source with
  | case1 source h => simp
  | case2 source before after h name rest h' hn ih =>
    simp [Segment.source, ih, eq_append_of_cutAtMarks? h, eq_append_of_cutAtMarks? h']
  | case3 source before after h name rest h' hn ih =>
    simp [Segment.source, ih, eq_append_of_cutAtMarks? h]
  | case4 source before after h h' ih =>
    simp [Segment.source, ih, eq_append_of_cutAtMarks? h]

/-- A template with its placeholders filled in. -/
def renderTemplate (template : List Segment) (values : List (String × String)) : String :=
  String.ofList (template.flatMap (Segment.render values))

end ShellCompletion.Script
