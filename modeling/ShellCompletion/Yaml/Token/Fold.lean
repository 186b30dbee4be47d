import ShellCompletion.Yaml.Cursor

/-!
# Folding of lines

Plain and quoted scalars may run over several lines. What stands between two pieces of their text is
folded: a single line break is read as a space, further ones are kept, and the blanks around them
are dropped. Without a line break the blanks are kept.
-/

namespace ShellCompletion.Yaml

/-- What stands between two pieces of the text of a scalar. -/
inductive Gap where
  /-- Nothing. -/
  | none
  /-- Blanks. -/
  | blanks (chars : List Char)
  /-- Line breaks: the first one, unless it is escaped, and those behind it. -/
  | breaks (first : Option Char) (more : List Char)
  deriving DecidableEq, Repr

namespace Gap

/-- The gap has a line break. -/
def hasBreak : Gap → Bool
  | breaks _ _ => true
  | none | blanks _ => false

/-- The gap with one more blank. -/
def addBlank (gap : Gap) (c : Char) : Gap :=
  match gap with
  | none => blanks [c]
  | blanks chars => blanks (chars ++ [c])
  | breaks first more => breaks first more

/-- The gap with one more line break. -/
def addBreak (gap : Gap) (c : Char) : Gap :=
  match gap with
  | none | blanks _ => breaks (some c) []
  | breaks first more => breaks first (more ++ [c])

/-- The text that a gap is read as. -/
def text : Gap → List Char
  | none => []
  | blanks chars => chars
  | breaks (some '\n') [] => [' ']
  | breaks (some '\n') more => more
  | breaks (some c) more => c :: more
  | breaks Option.none more => more

end Gap

end ShellCompletion.Yaml
