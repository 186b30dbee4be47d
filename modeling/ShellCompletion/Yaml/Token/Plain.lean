import ShellCompletion.Yaml.Token.Fold

/-!
# Plain scalars

A scalar without quotes ends before a colon that ends a word, before a comment, before a line that
is not indented enough, and, inside brackets or braces, before a character that belongs to those.
-/

namespace ShellCompletion.Yaml

/-- A plain scalar that has been read. -/
structure PlainScalar where
  /-- Its text. -/
  text : List Char
  /-- Where it ends; blanks and line breaks behind it are passed. -/
  cursor : Cursor
  /-- A line break follows it. -/
  breakFollows : Bool

/-- The characters that end a plain scalar inside brackets or braces. -/
def isFlowChar (c : Char) : Bool :=
  c == ',' || c == '[' || c == ']' || c == '{' || c == '}'

/-- Reads the rest of a plain scalar: `gap` is what has just been passed, and `text` is what comes
before that, the last character first. In the block context lines have to be indented by at least
`indent`. -/
def readPlain (inFlow : Bool) (indent : Int) (mark : Mark) (gap : Gap) (text : List Char) :
    List Char → Option PlainScalar
  | [] => some { text := text.reverse, cursor := ⟨[], mark⟩, breakFollows := gap.hasBreak }
  | c :: rest =>
    if isBreak c then readPlain inFlow indent mark.nextLine (gap.addBreak c) text rest
    else if isBlank c then
      if c = '\t' ∧ gap.hasBreak ∧ mark.column < indent then none
      else readPlain inFlow indent mark.next (gap.addBlank c) text rest
    else if (gap.hasBreak && !inFlow && mark.column < indent) || isDocumentMark mark (c :: rest) ||
        (c == '#' && gap != .none) then
      some { text := text.reverse, cursor := ⟨c :: rest, mark⟩, breakFollows := gap.hasBreak }
    else if inFlow && c == ':' && rest.head?.any (fun d => isFlowChar d || d == '?') then none
    else if (c == ':' && wordEnds rest) || (inFlow && isFlowChar c) then
      some { text := text.reverse, cursor := ⟨c :: rest, mark⟩, breakFollows := gap.hasBreak }
    else readPlain inFlow indent mark.next .none (c :: gap.text.reverse ++ text) rest

end ShellCompletion.Yaml
