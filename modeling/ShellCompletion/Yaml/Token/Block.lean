import ShellCompletion.Yaml.Cursor

/-!
# Block scalars

A bar or an angle bracket opens a scalar that takes whole lines, as deep as the first of them is
indented. Behind a bar the line breaks are kept, behind an angle bracket single ones are folded into
spaces. The line breaks at the end are kept or dropped as the header says.
-/

namespace ShellCompletion.Yaml

/-- What becomes of the line breaks at the end of a block scalar. -/
inductive Chomping where
  /-- All are dropped. -/
  | strip
  /-- One is kept. -/
  | clip
  /-- All are kept. -/
  | keep
  deriving DecidableEq, Repr

/-- The chomping that a character of the header asks for. -/
def chomping? : Char → Option Chomping
  | '+' => some .keep
  | '-' => some .strip
  | _ => none

/-- The indentation that a character of the header asks for. -/
def indentation? (c : Char) : Option Nat :=
  if c.isDigit then some (c.toNat - '0'.toNat) else none

/-- The header of a block scalar. -/
structure BlockHeader where
  /-- What becomes of the line breaks at the end. -/
  chomping : Chomping := .clip
  /-- The indentation that is asked for. -/
  indentation : Option Nat := none
  deriving DecidableEq, Repr

/-- The header whose characters follow, and their number. -/
def readBlockHeader : List Char → BlockHeader × Nat
  | [] => ({}, 0)
  | c :: rest =>
    match chomping? c, indentation? c with
    | some chomping, _ =>
      match rest.head?.bind indentation? with
      | some indentation => ({ chomping, indentation }, 2)
      | none => ({ chomping }, 1)
    | none, some indentation =>
      match rest.head?.bind chomping? with
      | some chomping => ({ chomping, indentation }, 2)
      | none => ({ indentation }, 1)
    | none, none => ({}, 0)

/-- What precedes the first line of a block scalar. -/
structure BlockStart where
  /-- The line breaks, the last one first. -/
  breaks : List Char
  /-- The deepest indentation that was met. -/
  deepest : Nat
  /-- Where the first line begins. -/
  cursor : Cursor

/-- Passes indentation and empty lines. A tab may not stand where indentation is expected; when no
indentation is known yet, that is anywhere. -/
def readBlockStart (indent : Option Nat) (mark : Mark) (deepest : Nat) (breaks : List Char) :
    List Char → Option BlockStart
  | [] => some { breaks, deepest := max deepest mark.column, cursor := ⟨[], mark⟩ }
  | c :: rest =>
    let indenting := indent.all (mark.column < ·)
    if c = ' ' ∧ indenting then readBlockStart indent mark.next deepest breaks rest
    else if c = '\t' ∧ indenting then none
    else
      let deepest := max deepest mark.column
      if isBreak c then readBlockStart indent mark.nextLine deepest (c :: breaks) rest
      else some { breaks, deepest, cursor := ⟨c :: rest, mark⟩ }

/-- The text of a block scalar as far as it has been read. -/
structure BlockText where
  /-- The text, the last character first. -/
  text : List Char := []
  /-- The break at the end of the last line. -/
  lineBreak : Option Char := none
  /-- The breaks of the empty lines behind that, the last one first. -/
  breaks : List Char
  /-- The last line began with a blank. -/
  startsBlank : Bool := false

namespace BlockText

/-- Begins a line whose first character is given. Folding spares the lines that begin with a blank
and their neighbours. -/
def beginLine (block : BlockText) (literal : Bool) (c : Char) : BlockText :=
  let joined :=
    if !literal && block.lineBreak == some '\n' && !block.startsBlank && !isBlank c then
      if block.breaks = [] then [' '] else []
    else block.lineBreak.toList
  { text := c :: block.breaks ++ joined ++ block.text, lineBreak := none, breaks := [],
    startsBlank := isBlank c }

/-- The whole text, once nothing follows. -/
def finish (block : BlockText) (chomping : Chomping) : List Char :=
  let tail :=
    match chomping with
    | .strip => []
    | .clip => block.lineBreak.toList
    | .keep => block.breaks ++ block.lineBreak.toList
  (tail ++ block.text).reverse

end BlockText

/-- Reads the rest of a block scalar whose lines are indented by `indent`; `inLine` says that its
current line has begun. -/
def readBlockLines (literal : Bool) (chomping : Chomping) (indent : Nat) (mark : Mark)
    (inLine : Bool) (block : BlockText) : List Char → Option (List Char × Cursor)
  | [] => some (block.finish chomping, ⟨[], mark⟩)
  | c :: rest =>
    if inLine then
      if isBreak c then
        readBlockLines literal chomping indent mark.nextLine false
          { block with lineBreak := some c } rest
      else
        readBlockLines literal chomping indent mark.next true
          { block with text := c :: block.text } rest
    else if c = ' ' ∧ mark.column < indent then
      readBlockLines literal chomping indent mark.next false block rest
    else if c = '\t' ∧ mark.column < indent then none
    else if isBreak c then
      readBlockLines literal chomping indent mark.nextLine false
        { block with breaks := c :: block.breaks } rest
    else if mark.column = indent then
      readBlockLines literal chomping indent mark.next true (block.beginLine literal c) rest
    else some (block.finish chomping, ⟨c :: rest, mark⟩)

/-- Reads a block scalar behind the character that opens it, in a collection that is indented by
`parent`. -/
def readBlock (literal : Bool) (parent : Int) (cursor : Cursor) :
    Option (List Char × Cursor) := do
  let (header, count) := readBlockHeader cursor.rest
  if header.indentation = some 0 then
    none
  let cursor ← (cursor.advance count).passLineEnd?
  let given := header.indentation.map fun n => (max parent 0).toNat + n
  let start ← readBlockStart given cursor.mark 0 [] cursor.rest
  let indent := given.getD (max start.deepest (max (parent + 1) 1).toNat)
  readBlockLines literal header.chomping indent start.cursor.mark false { breaks := start.breaks }
    start.cursor.rest

end ShellCompletion.Yaml
