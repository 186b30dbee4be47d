/-!
# Characters and places in a YAML text

Which characters a YAML text may hold, how its lines end, and the place of a character in it. Lines
may end in several ways; all but two of them are read as a plain line break, so that is what they
are turned into before anything else happens.
-/

namespace ShellCompletion.Yaml

/-- A character that may stand in a YAML text. -/
def isPrintable (c : Char) : Bool :=
  let n := c.toNat
  n == 0x09 || n == 0x0A || n == 0x0D || (0x20 ≤ n && n ≤ 0x7E) || n == 0x85 ||
    (0xA0 ≤ n && n ≤ 0xD7FF) || (0xE000 ≤ n && n ≤ 0xFFFD) || 0x10000 ≤ n

/-- A text in which every line that ends in a carriage return, in a carriage return and a line feed,
or in the character for the next line ends in a line feed alone. -/
def unifyBreaks : List Char → List Char
  | [] => []
  | '\r' :: '\n' :: rest => '\n' :: unifyBreaks rest
  | '\r' :: rest => '\n' :: unifyBreaks rest
  | '\u0085' :: rest => '\n' :: unifyBreaks rest
  | c :: rest => c :: unifyBreaks rest

/-- A line break: a line feed, or one of the separators of lines and paragraphs. -/
def isBreak (c : Char) : Bool :=
  c == '\n' || c == '\u2028' || c == '\u2029'

/-- A blank inside a line. -/
def isBlank (c : Char) : Bool :=
  c == ' ' || c == '\t'

/-- The text ends here, or a line break follows. -/
def lineEnds : List Char → Bool
  | [] => true
  | c :: _ => isBreak c

/-- The text ends here, or a blank or a line break follows. -/
def wordEnds : List Char → Bool
  | [] => true
  | c :: _ => isBlank c || isBreak c

/-- A character of the name of an anchor, a directive or a tag handle. -/
def isNameChar (c : Char) : Bool :=
  c.isAlphanum || c == '_' || c == '-'

/-- A place in a text. -/
structure Mark where
  /-- The number of characters before the place. -/
  index : Nat := 0
  /-- The number of lines before that of the place. -/
  line : Nat := 0
  /-- The number of characters before the place in its line. -/
  column : Nat := 0
  deriving DecidableEq, Repr, Inhabited

namespace Mark

/-- The place behind some characters that are no line breaks. -/
def advance (mark : Mark) (count : Nat) : Mark :=
  { mark with index := mark.index + count, column := mark.column + count }

/-- The place behind one character that is no line break. -/
def next (mark : Mark) : Mark :=
  mark.advance 1

/-- The place behind a line break. -/
def nextLine (mark : Mark) : Mark :=
  { index := mark.index + 1, line := mark.line + 1, column := 0 }

end Mark

/-- What is left of a text, and the place where that begins. -/
structure Cursor where
  /-- What is left. -/
  rest : List Char
  /-- Where it begins. -/
  mark : Mark
  deriving Inhabited

namespace Cursor

/-- The cursor behind some characters that are no line breaks. -/
def advance (cursor : Cursor) (count : Nat) : Cursor :=
  { rest := cursor.rest.drop count, mark := cursor.mark.advance count }

/-- The cursor behind a line break, if one follows. -/
def passBreak (cursor : Cursor) : Cursor :=
  match cursor.rest with
  | c :: rest => if isBreak c then { rest, mark := cursor.mark.nextLine } else cursor
  | [] => cursor

/-- The cursor behind characters of a class that holds no line breaks. -/
def passWhile (cursor : Cursor) (p : Char → Bool) : Cursor :=
  cursor.advance (cursor.rest.takeWhile p).length

/-- The cursor behind the blanks and the comment at the end of a line, and behind its break; `none`
if anything else stands there. -/
def passLineEnd? (cursor : Cursor) : Option Cursor :=
  let cursor := cursor.passWhile isBlank
  let cursor := if cursor.rest.head? = some '#' then cursor.passWhile (!isBreak ·) else cursor
  if lineEnds cursor.rest then some cursor.passBreak else none

end Cursor

/-- At this place a line begins that opens or closes a document: three dashes or three dots, and
nothing else in the word. -/
def isDocumentMark (mark : Mark) (cs : List Char) : Bool :=
  mark.column == 0 &&
    match cs with
    | '-' :: '-' :: '-' :: rest => wordEnds rest
    | '.' :: '.' :: '.' :: rest => wordEnds rest
    | _ => false

end ShellCompletion.Yaml
