import ShellCompletion.Yaml.Token.Block
import ShellCompletion.Yaml.Token.Directive
import ShellCompletion.Yaml.Token.Plain
import ShellCompletion.Yaml.Token.Quoted

/-!
# From a text to its tokens

The scanner keeps track of the indentation, which opens and closes block collections, and of the
places where a key may have begun without a question mark: only the colon behind it shows that it
was a key, and then the token for it is put where the key began. Such a key has to stand on one line
and must not be too long.
-/

namespace ShellCompletion.Yaml

/-- A place where a key may have begun. -/
structure PossibleKey where
  /-- It stands where a block mapping expects a key, so it has to turn out to be one. -/
  required : Bool
  /-- The number of tokens before it. -/
  position : Nat
  /-- Where it begins. -/
  mark : Mark
  deriving DecidableEq, Repr

/-- The state of the scanner. -/
structure Scanner where
  /-- What is still to be scanned. -/
  cursor : Cursor
  /-- The tokens, the last one first. -/
  tokens : List Token := []
  /-- The number of tokens. -/
  count : Nat := 0
  /-- The indentation of the innermost block collection. -/
  indent : Int := -1
  /-- The indentations of those around it, from the inside out. -/
  outer : List Int := []
  /-- The possible key outside all brackets and braces, or inside the innermost ones. -/
  key : Option PossibleKey := none
  /-- The possible keys outside of those, from the inside out; one for each bracket or brace that is
  open. -/
  outerKeys : List (Option PossibleKey) := []
  /-- A key may begin here without a question mark. -/
  keyAllowed : Bool := true

namespace Scanner

/-- Some bracket or brace is open. -/
def inFlow (s : Scanner) : Bool :=
  !s.outerKeys.isEmpty

/-- The column of the next character. -/
def column (s : Scanner) : Int :=
  s.cursor.mark.column

/-- Adds a token at the end. -/
def push (s : Scanner) (token : Token) : Scanner :=
  { s with tokens := token :: s.tokens, count := s.count + 1 }

/-- Adds a token at an earlier position. -/
def insert (s : Scanner) (position : Nat) (token : Token) : Scanner :=
  let behind := s.count - position
  { s with
    tokens := s.tokens.take behind ++ token :: s.tokens.drop behind
    count := s.count + 1 }

/-- Moves the cursor. -/
def moveTo (s : Scanner) (cursor : Cursor) : Scanner :=
  { s with cursor }

/-- Passes some characters that are no line breaks. -/
def advance (s : Scanner) (count : Nat) : Scanner :=
  s.moveTo (s.cursor.advance count)

/-- Says whether a key may begin here. -/
def allowKey (s : Scanner) (allowed : Bool) : Scanner :=
  { s with keyAllowed := allowed }

/-! ## Indentation -/

/-- Opens a block collection at a column that is deeper than the indentation; its token goes to
`position`. -/
def openBlock (s : Scanner) (column : Int) (position : Nat) (token : Token) : Scanner :=
  if !s.inFlow && s.indent < column then
    { s.insert position token with indent := column, outer := s.indent :: s.outer }
  else s

/-- Closes the block collections that are deeper than a column. -/
def closeBlocksFrom (column indent : Int) (s : Scanner) : List Int → Scanner
  | [] => { s with indent, outer := [] }
  | next :: outer =>
    if column < indent then closeBlocksFrom column next (s.push .blockEnd) outer
    else { s with indent, outer := next :: outer }

/-- Closes the block collections that are deeper than a column; inside brackets and braces
indentation does not count. -/
def closeBlocks (s : Scanner) (column : Int) : Scanner :=
  if s.inFlow then s else closeBlocksFrom column s.indent s s.outer

/-! ## Possible keys -/

/-- The longest way from the beginning of a key to its colon. -/
def maxKeyLength : Nat := 1024

/-- Gives up a possible key; one that is required cannot be given up. -/
def dropKey (s : Scanner) : Option Scanner :=
  if s.key.any (·.required) then none else some { s with key := none }

/-- Notes that a key may begin here. -/
def noteKey (s : Scanner) : Option Scanner :=
  if s.keyAllowed then do
    let s ← s.dropKey
    return { s with
      key := some {
        required := !s.inFlow && s.indent == s.column
        position := s.count
        mark := s.cursor.mark } }
  else some s

/-- The key began on an earlier line or too far back. -/
def isStale (mark : Mark) (key : PossibleKey) : Bool :=
  key.mark.line < mark.line || key.mark.index + maxKeyLength < mark.index

/-- Gives up the possible keys that have become stale. -/
def dropStale (s : Scanner) : Option Scanner := do
  let drop (key : Option PossibleKey) : Option (Option PossibleKey) :=
    match key with
    | some k =>
      if isStale s.cursor.mark k then (if k.required then none else some none) else some key
    | none => some none
  return { s with key := ← drop s.key, outerKeys := ← s.outerKeys.mapM drop }

/-! ## Between the tokens -/

/-- The mark that may stand at the beginning of a text to tell its encoding. -/
def byteOrderMark : Char := '\uFEFF'

/-- Passes blanks, comments and line breaks; `inComment` says that a comment has begun. Behind a
line break outside of brackets and braces a key may begin. A tab does not count as a blank where it
would be indentation. -/
def passSeparation (inFlow keyAllowed inComment : Bool) (mark : Mark) :
    List Char → Bool × Cursor
  | [] => (keyAllowed, ⟨[], mark⟩)
  | c :: rest =>
    if isBreak c then passSeparation inFlow (keyAllowed || !inFlow) false mark.nextLine rest
    else if inComment then passSeparation inFlow keyAllowed true mark.next rest
    else if (c == byteOrderMark && mark.column == 0) || c == ' ' ||
        (c == '\t' && (inFlow || !keyAllowed)) then
      passSeparation inFlow keyAllowed false mark.next rest
    else if c = '#' then passSeparation inFlow keyAllowed true mark.next rest
    else (keyAllowed, ⟨c :: rest, mark⟩)

/-- Goes on to the next token, and closes the block collections that end before it. -/
def toToken (s : Scanner) : Option Scanner := do
  let (keyAllowed, cursor) :=
    passSeparation s.inFlow s.keyAllowed false s.cursor.mark s.cursor.rest
  let s ← ({ s with keyAllowed, cursor } : Scanner).dropStale
  return s.closeBlocks s.column

/-! ## The tokens -/

/-- Ends the text. -/
def scanEnd (s : Scanner) : Option Scanner := do
  let s ← (s.closeBlocks (-1)).dropKey
  return s.push .streamEnd

/-- Scans a directive. -/
def scanDirective (s : Scanner) : Option Scanner := do
  let s ← (s.closeBlocks (-1)).dropKey
  let (token, cursor) ← readDirective (s.cursor.advance 1)
  return ((s.allowKey false).push token).moveTo cursor

/-- Scans the line that opens or closes a document. -/
def scanDocumentMark (s : Scanner) (token : Token) : Option Scanner := do
  let s ← (s.closeBlocks (-1)).dropKey
  return ((s.allowKey false).push token).advance 3

/-- Scans an opening bracket or brace. -/
def scanFlowStart (s : Scanner) (token : Token) : Option Scanner := do
  let s ← s.noteKey
  return (({ s with key := none, outerKeys := s.key :: s.outerKeys }.allowKey true).push
    token).advance 1

/-- Scans a closing bracket or brace. -/
def scanFlowEnd (s : Scanner) (token : Token) : Option Scanner := do
  let s ← s.dropKey
  let s := match s.outerKeys with
    | key :: outerKeys => { s with key, outerKeys }
    | [] => s
  return ((s.allowKey false).push token).advance 1

/-- Scans a comma. -/
def scanComma (s : Scanner) : Option Scanner := do
  let s ← s.dropKey
  return ((s.allowKey true).push .comma).advance 1

/-- Scans the dash of an item. -/
def scanBlockItem (s : Scanner) : Option Scanner := do
  if !s.inFlow && !s.keyAllowed then
    none
  let s ← (s.openBlock s.column s.count .blockSequenceStart).dropKey
  return ((s.allowKey true).push .blockItem).advance 1

/-- Scans the question mark of a key. -/
def scanKey (s : Scanner) : Option Scanner := do
  if !s.inFlow && !s.keyAllowed then
    none
  let s ← (s.openBlock s.column s.count .blockMappingStart).dropKey
  return ((s.allowKey !s.inFlow).push .key).advance 1

/-- Scans the colon of a value. If a key may have begun before it, there was one. -/
def scanValue (s : Scanner) : Option Scanner := do
  let s ← match s.key with
    | some key =>
      let s := s.insert key.position .key
      let s := s.openBlock key.mark.column key.position .blockMappingStart
      some ({ s with key := none }.allowKey false)
    | none =>
      if !s.inFlow && !s.keyAllowed then none
      else
        some ((s.openBlock s.column s.count .blockMappingStart).allowKey !s.inFlow)
  return (s.push .value).advance 1

/-- Scans the name behind an asterisk or an ampersand. -/
def scanName (s : Scanner) (token : String → Token) : Option Scanner := do
  let s ← s.noteKey
  let cursor := s.cursor.advance 1
  let name := cursor.rest.takeWhile isNameChar
  let cursor := cursor.advance name.length
  if name = [] then
    none
  if !wordEnds cursor.rest && !cursor.rest.head?.any "?:,]\x7d%@\x60".toList.contains then
    none
  return ((s.allowKey false).push (token (String.ofList name))).moveTo cursor

/-- Scans a tag. -/
def scanTag (s : Scanner) : Option Scanner := do
  let s ← s.noteKey
  let (tag, cursor) ← readTag s.inFlow s.cursor
  return ((s.allowKey false).push (.tag tag)).moveTo cursor

/-- Scans a block scalar. -/
def scanBlock (s : Scanner) (literal : Bool) : Option Scanner := do
  let s ← s.dropKey
  let (text, cursor) ← readBlock literal s.indent (s.cursor.advance 1)
  let style := if literal then Style.literal else Style.folded
  return ((s.allowKey true).push (.scalar (String.ofList text) style)).moveTo cursor

/-- Scans a quoted scalar. -/
def scanQuoted (s : Scanner) (quotes : Quotes) : Option Scanner := do
  let s ← s.noteKey
  let cursor := s.cursor.advance 1
  let (text, cursor) ← readQuoted quotes .text cursor.mark .none [] cursor.rest
  return ((s.allowKey false).push (.scalar (String.ofList text) .quoted)).moveTo cursor

/-- Scans a plain scalar. Behind a line break a key may begin. -/
def scanPlain (s : Scanner) : Option Scanner := do
  let s ← s.noteKey
  let scalar ← readPlain s.inFlow (s.indent + 1) s.cursor.mark .none [] s.cursor.rest
  return ((s.allowKey scalar.breakFollows).push
    (.scalar (String.ofList scalar.text) .plain)).moveTo scalar.cursor

/-- A character that begins something else than a plain scalar. -/
def isIndicator (c : Char) : Bool :=
  "-?:,[]\x7b\x7d#&*!|>'\"%@\x60".toList.contains c

/-- Scans the token that begins here. -/
def scanToken (s : Scanner) : Option Scanner :=
  match s.cursor.rest with
  | [] => none
  | c :: rest =>
    if isDocumentMark s.cursor.mark (c :: rest) then
      s.scanDocumentMark (if c = '-' then .documentStart else .documentEnd)
    else
      match c with
      | '[' => s.scanFlowStart .flowSequenceStart
      | ']' => s.scanFlowEnd .flowSequenceEnd
      | '{' => s.scanFlowStart .flowMappingStart
      | '}' => s.scanFlowEnd .flowMappingEnd
      | ',' => s.scanComma
      | '*' => s.scanName .alias
      | '&' => s.scanName .anchor
      | '!' => s.scanTag
      | '\'' => s.scanQuoted .single
      | '"' => s.scanQuoted .double
      | '-' => if wordEnds rest then s.scanBlockItem else s.scanPlain
      | '?' => if s.inFlow || wordEnds rest then s.scanKey else s.scanPlain
      | ':' => if s.inFlow || wordEnds rest then s.scanValue else s.scanPlain
      | '%' => if s.cursor.mark.column = 0 then s.scanDirective else none
      | '|' => if s.inFlow then none else s.scanBlock true
      | '>' => if s.inFlow then none else s.scanBlock false
      | c => if isBlank c || isIndicator c then none else s.scanPlain

/-- Scans at most a number of tokens, and the end of the text. -/
def scanAtMost : Nat → Scanner → Option (List Token)
  | 0, _ => none
  | more + 1, s => do
    let s ← s.toToken
    if s.cursor.rest = [] then
      return (← s.scanEnd).tokens.reverse
    scanAtMost more (← s.scanToken)

end Scanner

/-- The tokens of a text. Every token but the last takes at least one character, so there are not
more of them than characters and one. -/
def tokens? (text : String) : Option (List Token) :=
  if text.toList.all isPrintable then
    Scanner.scanAtMost (text.toList.length + 1)
      { cursor := ⟨unifyBreaks text.toList, {}⟩ }
  else none

end ShellCompletion.Yaml
