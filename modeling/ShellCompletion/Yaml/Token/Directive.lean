import ShellCompletion.Yaml.Token.Basic

/-!
# Directives

A line before a document that begins with a percent sign: the version of the format, or a tag handle
with what it stands for. There are no others.
-/

namespace ShellCompletion.Yaml

/-- The greatest number of digits in the number of a version. -/
def maxVersionDigits : Nat := 9

/-- Reads a number of a version. -/
def readVersionNumber (cursor : Cursor) : Option (Nat × Cursor) :=
  let digits := cursor.rest.takeWhile Char.isDigit
  if digits = [] ∨ maxVersionDigits < digits.length then none
  else
    some (digits.foldl (fun n d => n * 10 + (d.toNat - '0'.toNat)) 0, cursor.advance digits.length)

/-- Reads the version of the format. -/
def readVersion (cursor : Cursor) : Option (Token × Cursor) := do
  let (major, cursor) ← readVersionNumber (cursor.passWhile isBlank)
  if cursor.rest.head? ≠ some '.' then
    none
  let (minor, cursor) ← readVersionNumber (cursor.advance 1)
  return (.version major minor, cursor)

/-- Reads a tag handle and what it stands for. -/
def readHandleDirective (cursor : Cursor) : Option (Token × Cursor) := do
  let (handle, cursor) ← readHandle (cursor.passWhile isBlank)
  if handle ≠ ['!'] ∧ !isClosedHandle handle then
    none
  if !cursor.rest.head?.any isBlank then
    none
  let (bytes, cursor) ← readTagBytes true [] (cursor.passWhile isBlank)
  if bytes = [] ∨ !wordEnds cursor.rest then
    none
  return (.handle (String.ofList handle) bytes, cursor)

/-- Reads a directive behind its percent sign, up to the end of the line. -/
def readDirective (cursor : Cursor) : Option (Token × Cursor) := do
  let name := String.ofList (cursor.rest.takeWhile isNameChar)
  let cursor := cursor.passWhile isNameChar
  if !wordEnds cursor.rest then
    none
  let (token, cursor) ←
    match name with
    | "YAML" => readVersion cursor
    | "TAG" => readHandleDirective cursor
    | _ => none
  return (token, ← cursor.passLineEnd?)

end ShellCompletion.Yaml
