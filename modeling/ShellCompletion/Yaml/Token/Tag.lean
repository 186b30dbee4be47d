import ShellCompletion.Json.Quoted
import ShellCompletion.Yaml.Cursor

/-!
# Tags

A tag is written out between angle brackets, or as a suffix behind a handle that stands for the
beginning of the tag. The characters of a tag may be given by the bytes of their encoding, so a tag
is a list of bytes.
-/

namespace ShellCompletion.Yaml

/-- The bytes of a tag. -/
abbrev TagBytes := List UInt8

/-- The bytes of a text. -/
def bytesOf (text : String) : TagBytes :=
  text.toUTF8.toList

/-- A tag as it is written: a handle and what follows it. The empty handle stands for nothing. -/
structure WrittenTag where
  /-- The handle. -/
  handle : String
  /-- What follows the handle. -/
  suffix : TagBytes
  deriving DecidableEq, Repr

/-- A character that may stand in a tag as it is. Between angle brackets there are a few more. -/
def isTagChar (bracketed : Bool) (c : Char) : Bool :=
  isNameChar c || ";/?:@&=+$.!~*'()".toList.contains c ||
    (bracketed && (c == ',' || c == '[' || c == ']'))

/-- The number of bytes that follow the first byte of an encoded character. -/
def trailingBytes? (byte : Nat) : Option Nat :=
  if byte < 0x80 then some 0
  else if byte / 0x20 = 6 then some 1
  else if byte / 0x10 = 14 then some 2
  else if byte / 0x08 = 30 then some 3
  else none

/-- Reads the characters of a tag: their bytes, the last one first, and what follows. `due` bytes of
an encoded character are still to come. -/
def readTagChars (bracketed : Bool) (due : Nat) (mark : Mark) (bytes : TagBytes) :
    List Char → Option (TagBytes × Cursor)
  | '%' :: a :: b :: rest => do
    let byte := (← Json.hexValue? a) * 16 + (← Json.hexValue? b)
    match due with
    | 0 =>
      readTagChars bracketed (← trailingBytes? byte) (mark.advance 3) (byte.toUInt8 :: bytes) rest
    | due + 1 =>
      if byte / 0x40 = 2 then
        readTagChars bracketed due (mark.advance 3) (byte.toUInt8 :: bytes) rest
      else none
  | c :: rest =>
    if c = '%' ∨ due ≠ 0 then none
    else if isTagChar bracketed c then
      readTagChars bracketed 0 mark.next (c.toNat.toUInt8 :: bytes) rest
    else some (bytes, ⟨c :: rest, mark⟩)
  | [] => if due = 0 then some (bytes, ⟨[], mark⟩) else none

/-- Reads the characters of a tag behind those that are known already. -/
def readTagBytes (bracketed : Bool) (known : TagBytes) (cursor : Cursor) :
    Option (TagBytes × Cursor) := do
  let (bytes, cursor) ← readTagChars bracketed 0 cursor.mark [] cursor.rest
  return (known ++ bytes.reverse, cursor)

/-- Reads a tag handle: an exclamation mark, and perhaps a name and another one. -/
def readHandle (cursor : Cursor) : Option (List Char × Cursor) :=
  match cursor.rest with
  | '!' :: rest =>
    let name := rest.takeWhile isNameChar
    let after := cursor.advance (name.length + 1)
    if after.rest.head? = some '!' then some ('!' :: name ++ ['!'], after.advance 1)
    else some ('!' :: name, after)
  | _ => none

/-- A handle that is closed by an exclamation mark of its own. -/
def isClosedHandle (handle : List Char) : Bool :=
  1 < handle.length && handle.getLast? == some '!'

/-- Reads a tag that begins with its exclamation mark. -/
def readTag (inFlow : Bool) (cursor : Cursor) : Option (WrittenTag × Cursor) := do
  let (tag, after) ←
    if cursor.rest.tail.head? = some '<' then do
      let (bytes, after) ← readTagBytes true [] (cursor.advance 2)
      if bytes = [] ∨ after.rest.head? ≠ some '>' then none
      else some (⟨"", bytes⟩, after.advance 1)
    else do
      let (handle, after) ← readHandle cursor
      if isClosedHandle handle then do
        let (bytes, after) ← readTagBytes false [] after
        if bytes = [] then none else some (⟨String.ofList handle, bytes⟩, after)
      else do
        let (bytes, after) ← readTagBytes false (bytesOf (String.ofList handle.tail)) after
        if bytes = [] then some (⟨"", bytesOf "!"⟩, after) else some (⟨"!", bytes⟩, after)
  if wordEnds after.rest || (inFlow && after.rest.head? == some ',') then some (tag, after)
  else none

end ShellCompletion.Yaml
