import ShellCompletion.Json.Quoted
import ShellCompletion.Yaml.Token.Fold

/-!
# Quoted scalars

Between single quotes only the quote itself is special: two of them stand for one. Between double
quotes a backslash begins an escape, which may also hide a line break.
-/

namespace ShellCompletion.Yaml

/-- The kind of quotes around a scalar. -/
inductive Quotes where
  | single
  | double
  deriving DecidableEq, Repr

/-- The character of a quote. -/
def Quotes.char : Quotes → Char
  | single => '\''
  | double => '"'

/-- What the reader of a quoted scalar is in the middle of. -/
inductive QuotedMode where
  /-- Text. -/
  | text
  /-- A single quote has just been passed. -/
  | apostrophe
  /-- A backslash has just been passed. -/
  | escape
  /-- A number of hexadecimal digits, one more than `more`, are still to come behind `value`. -/
  | code (more value : Nat)
  deriving DecidableEq, Repr

/-- The character that an escape of one letter stands for. -/
def letterEscape? : Char → Option Char
  | '0' => some '\x00'
  | 'a' => some '\x07'
  | 'b' => some '\x08'
  | 't' => some '\t'
  | '\t' => some '\t'
  | 'n' => some '\n'
  | 'v' => some '\x0b'
  | 'f' => some '\x0c'
  | 'r' => some '\r'
  | 'e' => some '\x1b'
  | ' ' => some ' '
  | '"' => some '"'
  | '/' => some '/'
  | '\\' => some '\\'
  | 'N' => some '\u0085'
  | '_' => some '\u00a0'
  | 'L' => some '\u2028'
  | 'P' => some '\u2029'
  | _ => none

/-- The number of hexadecimal digits behind the letter of an escape. -/
def codeLength? : Char → Option Nat
  | 'x' => some 2
  | 'u' => some 4
  | 'U' => some 8
  | _ => none

/-- The character of a code point. -/
def charOfCode? (n : Nat) : Option Char :=
  if h : n.isValidChar then some (Char.ofNatAux n h) else none

/-- Reads the rest of a scalar between quotes: `gap` is what has just been passed, and `text` is
what comes before that, the last character first. The answer is the text and the place behind the
closing quote. -/
def readQuoted (quotes : Quotes) (mode : QuotedMode) (mark : Mark) (gap : Gap) (text : List Char) :
    List Char → Option (List Char × Cursor)
  | [] => if mode = .apostrophe then some (text.reverse, ⟨[], mark⟩) else none
  | c :: rest =>
    match mode with
    | .code more value => do
      let value := value * 16 + (← Json.hexValue? c)
      match more with
      | more + 1 => readQuoted quotes (.code more value) mark.next gap text rest
      | 0 => readQuoted quotes .text mark.next gap ((← charOfCode? value) :: text) rest
    | .escape =>
      if isBreak c then readQuoted quotes .text mark.nextLine (.breaks none []) text rest
      else
        match codeLength? c, letterEscape? c with
        | some length, _ => readQuoted quotes (.code (length - 1) 0) mark.next gap text rest
        | none, some d => readQuoted quotes .text mark.next gap (d :: text) rest
        | none, none => none
    | .apostrophe =>
      if c = '\'' then readQuoted quotes .text mark.next gap (c :: text) rest
      else some (text.reverse, ⟨c :: rest, mark⟩)
    | .text =>
      if isBreak c then readQuoted quotes .text mark.nextLine (gap.addBreak c) text rest
      else if isBlank c then readQuoted quotes .text mark.next (gap.addBlank c) text rest
      else if isDocumentMark mark (c :: rest) then none
      else
        let text := gap.text.reverse ++ text
        if c = quotes.char then
          match quotes with
          | .single => readQuoted quotes .apostrophe mark.next .none text rest
          | .double => some (text.reverse, ⟨rest, mark.next⟩)
        else if c = '\\' ∧ quotes = .double then
          readQuoted quotes .escape mark.next .none text rest
        else readQuoted quotes .text mark.next .none (c :: text) rest

end ShellCompletion.Yaml
