/-!
# Bash words

How a text is written as one word of a Bash script without quotes around it: every character that
Bash would act on gets a backslash. A NUL cannot stand in a script and is dropped. A newline behind
a backslash joins two lines, so it vanishes when Bash reads the word.
-/

namespace ShellCompletion.Script.Bash

/-- The characters that Bash acts on outside quotes. -/
def activeChars : List Char :=
  ['\\', '"', ' ', '$', '\x60', '|', '&', ';', '(', ')', '<', '>', '*', '?', '[', ']', '\x7b',
    '\x7d', '~', '#', '\'', '!', '\t', '\n']

/-- One character as it is written in a word. -/
def escapeChar (c : Char) : List Char :=
  if c = '\x00' then [] else if c ∈ activeChars then ['\\', c] else [c]

/-- A text as it is written in a word. -/
def escape (text : String) : String :=
  String.ofList (text.toList.flatMap escapeChar)

/-- A text as one word; the empty word is spelled with two quotes. -/
def word (text : String) : String :=
  if escape text = "" then "''" else escape text

/-- A list of texts as the elements of an array. -/
def words (texts : List String) : String :=
  " ".intercalate (texts.map word)

end ShellCompletion.Script.Bash
