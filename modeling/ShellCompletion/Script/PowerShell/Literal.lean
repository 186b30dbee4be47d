/-!
# PowerShell literals

How a text is written between single quotes in a PowerShell script. PowerShell takes five different
characters for a single quote, and each of them is doubled. A character that is active elsewhere in
the language gets a backtick and a backslash is doubled; the script takes both away again when it
reads its tables.
-/

namespace ShellCompletion.Script.PowerShell

/-- The characters that PowerShell takes for a single quote. -/
def quoteChars : List Char :=
  ['\'', '\u2018', '\u2019', '\u201A', '\u201B']

/-- The characters that get a backtick. -/
def activeChars : List Char :=
  ['$', '\x60', '"', '&', '|', ';', '<', '>', '(', ')']

/-- One character as it is written inside a literal. -/
def escapeChar (c : Char) : List Char :=
  if c ∈ quoteChars then [c, c]
  else if c = '\\' then ['\\', '\\']
  else if c ∈ activeChars then ['\x60', c]
  else [c]

/-- A text as it is written inside a literal. -/
def escape (text : String) : String :=
  String.ofList (text.toList.flatMap escapeChar)

/-- A text as a literal. -/
def literal (text : String) : String :=
  "'" ++ escape text ++ "'"

/-- A list of texts as an array of literals. -/
def literals (texts : List String) : String :=
  "@(" ++ ", ".intercalate (texts.map literal) ++ ")"

end ShellCompletion.Script.PowerShell
