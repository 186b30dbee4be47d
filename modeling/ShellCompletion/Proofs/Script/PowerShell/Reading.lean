import Mathlib.Data.Bool.AllAny
import ShellCompletion.Script.PowerShell.Literal

/-!
# Reading PowerShell literals back

What becomes of a text that is written as a literal. A literal begins at one of the five quotes and
ends at the next, except that a quote right behind another one stands for itself. What stands
between the quotes is then decoded by the script, which takes the backticks and the doubled
backslashes out again.

* **Decoding** (`decode_flatMap_contentChar`): between the quotes, PowerShell finds a text that is
  decoded to the one that was written.
* **Literals** (`readLiteral?`): nothing in a literal ends it (`cutAtQuote?_flatMap_escapeChar`).
* **Tokens** (`scan`): one pass over the script. A literal is read as one token whatever is in it
  (`scan_literal`), and so is a word (`scan_word`).
* **Pieces** (`Passes`, `Scans`): what is read of a piece of a script whatever follows, or as long
  as a break follows. Such pieces may be joined, so a script can be read piece by piece.

Main statement: `literal_read_back`.
-/

namespace ShellCompletion.Script.PowerShell

/-! ### Decoding -/

/-- The characters that PowerShell takes for a single quote. -/
def delimiters : List Char :=
  ['\'', '\u2018', '\u2019', '\u201A', '\u201B']

/-- The characters before which a script takes a backtick out. -/
def decodedChars : List Char :=
  ['$', '\x60', '"', '&', '|', ';', '<', '>', '(', ')']

/-- Escaping goes character by character. -/
theorem toList_escape (text : String) : (escape text).toList = text.toList.flatMap escapeChar :=
  String.toList_ofList

/-- A character is written twice because it is a quote or a backslash, behind a backtick, or as it
is. -/
theorem escapeChar_cases (c : Char) :
    (c ∈ delimiters ∧ escapeChar c = [c, c]) ∨
      (c ∉ delimiters ∧ c = '\\' ∧ escapeChar c = ['\\', '\\']) ∨
        (c ∉ delimiters ∧ c ∈ decodedChars ∧ escapeChar c = ['\x60', c]) ∨
          (c ∉ delimiters ∧ c ≠ '\\' ∧ c ∉ decodedChars ∧ escapeChar c = [c]) := by
  rw [escapeChar]
  by_cases hquote : c ∈ quoteChars
  · exact .inl ⟨hquote, if_pos hquote⟩
  · rw [if_neg hquote]
    by_cases hslash : c = '\\'
    · exact .inr (.inl ⟨hquote, hslash, if_pos hslash⟩)
    · rw [if_neg hslash]
      by_cases hactive : c ∈ activeChars
      · exact .inr (.inr (.inl ⟨hquote, hactive, if_pos hactive⟩))
      · exact .inr (.inr (.inr ⟨hquote, hslash, hactive, if_neg hactive⟩))

/-- What PowerShell finds of a character between the quotes: of a doubled quote only one. -/
def contentChar (c : Char) : List Char :=
  if c ∈ delimiters then [c] else escapeChar c

/-- How a script decodes its tables: from left to right, a backtick before an active character is
taken out, and of two backslashes one. -/
def decode : List Char → List Char
  | [] => []
  | '\x60' :: c :: rest =>
    if c ∈ decodedChars then c :: decode rest else '\x60' :: decode (c :: rest)
  | '\\' :: '\\' :: rest => '\\' :: decode rest
  | c :: rest => c :: decode rest

/-- A character that begins no escape is decoded to itself. -/
theorem decode_cons {c : Char} (hslash : c ≠ '\\') (hactive : c ∉ decodedChars) (rest : List Char) :
    decode (c :: rest) = c :: decode rest := by
  have htick : c ≠ '\x60' := by
    rintro rfl
    exact hactive (by decide)
  rw [decode]
  · exact fun _ _ heq => absurd heq htick
  · exact fun _ heq => absurd heq hslash

/-- **What is written is read again.** -/
theorem decode_flatMap_contentChar (chars : List Char) :
    decode (chars.flatMap contentChar) = chars := by
  induction chars with
  | nil => rfl
  | cons c rest ih =>
    rw [List.flatMap_cons, contentChar]
    rcases escapeChar_cases c with ⟨hquote, -⟩ | ⟨hquote, rfl, hc⟩ | ⟨hquote, hactive, hc⟩ |
      ⟨hquote, hslash, hactive, hc⟩
    · have hall : ∀ d ∈ delimiters, d ≠ '\\' ∧ d ∉ decodedChars :=
        List.all_iff_forall_prop.mp (by decide)
      obtain ⟨hne, hdecoded⟩ := hall c hquote
      rw [if_pos hquote, List.singleton_append, decode_cons hne hdecoded, ih]
    · rw [if_neg hquote, hc, List.cons_append, List.singleton_append, decode, ih]
    · rw [if_neg hquote, hc, List.cons_append, List.singleton_append, decode, if_pos hactive, ih]
    · rw [if_neg hquote, hc, List.singleton_append, decode_cons hslash hactive, ih]

/-- What PowerShell finds between the quotes of a literal. -/
def content (text : String) : List Char :=
  text.toList.flatMap contentChar

/-- The decoded content of a literal is the text that was written. -/
theorem decode_content (text : String) : String.ofList (decode (content text)) = text := by
  rw [content, decode_flatMap_contentChar, String.ofList_toList]

/-! ### Literals -/

/-- What stands before the quote that ends a literal, and what follows that quote. Of two quotes in
a row the first ends nothing, and the second stands for itself. -/
def cutAtQuote? : List Char → Option (List Char × List Char)
  | [] => none
  | [c] => if c ∈ delimiters then some ([], []) else none
  | c :: d :: rest =>
    if c ∈ delimiters then
      if d ∈ delimiters then (cutAtQuote? rest).map fun cut => (d :: cut.1, cut.2)
      else some ([], d :: rest)
    else (cutAtQuote? (d :: rest)).map fun cut => (c :: cut.1, cut.2)

/-- What stands between the quotes of the literal that a text begins with, and what follows it. -/
def readLiteral? : List Char → Option (List Char × List Char)
  | [] => none
  | c :: rest => if c ∈ delimiters then cutAtQuote? rest else none

/-- The text that a script makes of the literal, and what follows it. -/
def readText? (chars : List Char) : Option (String × List Char) :=
  (readLiteral? chars).map fun cut => (String.ofList (decode cut.1), cut.2)

/-- A character that is no quote belongs to what stands before the end. -/
theorem cutAtQuote?_cons {c : Char} (h : c ∉ delimiters) (rest : List Char) :
    cutAtQuote? (c :: rest) = (cutAtQuote? rest).map fun cut => (c :: cut.1, cut.2) := by
  cases rest with
  | nil => rw [cutAtQuote?, cutAtQuote?, if_neg h, Option.map_none]
  | cons d rest => rw [cutAtQuote?, if_neg h]

/-- Of two quotes in a row one is content, and the search goes on behind both. -/
theorem cutAtQuote?_quotes {c d : Char} (hc : c ∈ delimiters) (hd : d ∈ delimiters)
    (rest : List Char) :
    cutAtQuote? (c :: d :: rest) = (cutAtQuote? rest).map fun cut => (d :: cut.1, cut.2) := by
  rw [cutAtQuote?, if_pos hc, if_pos hd]

/-- A quote that no other quote follows is the end. -/
theorem cutAtQuote?_quote {c : Char} (hc : c ∈ delimiters) {rest : List Char}
    (h : ∀ d ∈ rest.head?, d ∉ delimiters) : cutAtQuote? (c :: rest) = some ([], rest) := by
  cases rest with
  | nil => rw [cutAtQuote?, if_pos hc]
  | cons d rest => rw [cutAtQuote?, if_pos hc, if_neg (h d rfl)]

/-- What follows the end of a literal is shorter than the text. -/
theorem length_lt_of_cutAtQuote? {chars before behind : List Char}
    (h : cutAtQuote? chars = some (before, behind)) : behind.length < chars.length := by
  fun_induction cutAtQuote? chars generalizing before with
  | case1 => exact absurd h (by simp)
  | case2 c hc =>
    obtain ⟨rfl, rfl⟩ := Prod.mk.inj (Option.some.inj h)
    exact Nat.one_pos
  | case3 => exact absurd h (by simp)
  | case4 c d rest hc hd ih =>
    obtain ⟨cut, hcut, heq⟩ := Option.map_eq_some_iff.mp h
    obtain ⟨rfl, rfl⟩ := Prod.mk.inj heq
    exact Nat.lt_add_right 2 (ih hcut)
  | case5 c d rest hc hd =>
    obtain ⟨rfl, rfl⟩ := Prod.mk.inj (Option.some.inj h)
    exact Nat.lt_succ_self _
  | case6 c d rest hc ih =>
    obtain ⟨cut, hcut, heq⟩ := Option.map_eq_some_iff.mp h
    obtain ⟨rfl, rfl⟩ := Prod.mk.inj heq
    exact Nat.lt_succ_of_lt (ih hcut)

/-- An escaped character never ends a literal; what PowerShell finds of it becomes content. -/
theorem cutAtQuote?_escapeChar (c : Char) (rest : List Char) :
    cutAtQuote? (escapeChar c ++ rest) =
      (cutAtQuote? rest).map fun cut => (contentChar c ++ cut.1, cut.2) := by
  rw [contentChar]
  rcases escapeChar_cases c with ⟨hquote, hc⟩ | ⟨hquote, rfl, hc⟩ | ⟨hquote, -, hc⟩ |
    ⟨hquote, -, -, hc⟩
  · rw [if_pos hquote, hc]
    exact cutAtQuote?_quotes hquote hquote rest
  · rw [if_neg hquote, hc, List.cons_append, List.singleton_append, cutAtQuote?_cons hquote,
      cutAtQuote?_cons hquote, Option.map_map]
    rfl
  · have htick : '\x60' ∉ delimiters := by decide
    rw [if_neg hquote, hc, List.cons_append, List.singleton_append, cutAtQuote?_cons htick,
      cutAtQuote?_cons hquote, Option.map_map]
    rfl
  · rw [if_neg hquote, hc]
    exact cutAtQuote?_cons hquote rest

/-- Nothing in an escaped text ends the literal. -/
theorem cutAtQuote?_flatMap_escapeChar (chars rest : List Char) :
    cutAtQuote? (chars.flatMap escapeChar ++ rest) =
      (cutAtQuote? rest).map fun cut => (chars.flatMap contentChar ++ cut.1, cut.2) := by
  induction chars with
  | nil => exact Option.map_id_apply.symm
  | cons c chars ih =>
    rw [List.flatMap_cons, List.append_assoc, cutAtQuote?_escapeChar, ih, Option.map_map]
    simp only [Function.comp_def, List.flatMap_cons, List.append_assoc]

/-- Where a literal ends depends on what follows its last quote, and on nothing before that. -/
theorem readLiteral?_literal_append (text : String) (rest : List Char) :
    readLiteral? ((literal text).toList ++ rest) =
      (cutAtQuote? ('\'' :: rest)).map fun cut => (content text ++ cut.1, cut.2) := by
  have hopen : (literal text).toList ++ rest =
      '\'' :: (text.toList.flatMap escapeChar ++ '\'' :: rest) := by
    simp [literal, toList_escape]
  have hquote : '\'' ∈ delimiters := by decide
  rw [hopen, readLiteral?, if_pos hquote, cutAtQuote?_flatMap_escapeChar]
  rfl

/-- A literal is read to its end, whatever follows, as long as that is no quote. -/
theorem readLiteral?_literal (text : String) {rest : List Char}
    (h : ∀ c ∈ rest.head?, c ∉ delimiters) :
    readLiteral? ((literal text).toList ++ rest) = some (content text, rest) := by
  have hquote : '\'' ∈ delimiters := by decide
  rw [readLiteral?_literal_append, cutAtQuote?_quote hquote h, Option.map_some, List.append_nil]

/-- **A literal cannot be broken out of.** In front of any text, PowerShell finds the end of a
literal where it was written, and the script makes the text of it that was meant, exactly if no
quote follows. So different texts have different literals. -/
theorem literal_read_back :
    (∀ (text : String) (rest : List Char),
      readText? ((literal text).toList ++ rest) = some (text, rest) ↔
        ∀ c ∈ rest.head?, c ∉ delimiters) ∧
      Function.Injective literal := by
  have hread : ∀ (text : String) (rest : List Char), (∀ c ∈ rest.head?, c ∉ delimiters) →
      readText? ((literal text).toList ++ rest) = some (text, rest) := by
    intro text rest h
    rw [readText?, readLiteral?_literal text h, Option.map_some, decode_content]
  refine ⟨fun text rest => ⟨?_, hread text rest⟩, ?_⟩
  · intro h c hc hquote
    -- the quote would be taken into the literal, and less would be left
    obtain ⟨behind, rfl⟩ := List.head?_eq_some_iff.mp hc
    have hclose : '\'' ∈ delimiters := by decide
    rw [readText?, readLiteral?_literal_append, cutAtQuote?_quotes hclose hquote, Option.map_map,
      Option.map_map] at h
    obtain ⟨cut, hcut, heq⟩ := Option.map_eq_some_iff.mp h
    have hlength := length_lt_of_cutAtQuote? hcut
    have hbehind : cut.2 = c :: behind := congrArg Prod.snd heq
    rw [hbehind, List.length_cons] at hlength
    omega
  · intro a b heq
    have ha := hread a [] (by simp)
    have hb := hread b [] (by simp)
    rw [heq, hb] at ha
    exact (congrArg Prod.fst (Option.some.inj ha)).symm

/-! ### Tokens -/

/-- A token of a script. -/
inductive Token where
  /-- A run of characters that are neither blanks, quotes nor marks. -/
  | word (chars : List Char)
  /-- What stands between two quotes. -/
  | literal (content : List Char)
  /-- A character that is a token of its own. -/
  | mark (c : Char)
  deriving DecidableEq, Repr

/-- The characters that are tokens of their own. The end of a line is one of them. -/
def marks : List Char :=
  ['@', '\x7b', '\x7d', '(', ')', '=', ';', ',', '\n']

/-- The characters that only part tokens. -/
def blanks : List Char :=
  [' ', '\t']

/-- A character that a word may go on with. -/
def isWordChar (c : Char) : Bool :=
  c ∉ delimiters && c ∉ marks && c ∉ blanks

/-- Where the scan has got to, with what has been read of a token that is not yet complete. -/
inductive Mode where
  /-- Between two tokens. -/
  | between
  /-- In a word. -/
  | word (read : List Char)
  /-- Behind the quote that opens a literal. -/
  | literal (read : List Char)
  /-- Behind a quote in a literal, which has ended there if no other quote follows. -/
  | quote (read : List Char)
  /-- In a comment. -/
  | comment
  deriving DecidableEq, Repr

/-- The token that is complete if nothing follows. -/
def Mode.finish : Mode → List Token
  | word read => [.word read]
  | quote read => [.literal read]
  | between | literal _ | comment => []

/-- What a character begins that stands between two tokens. -/
def enter (c : Char) : List Token × Mode :=
  if c ∈ delimiters then ([], .literal [])
  else if c ∈ marks then ([.mark c], .between)
  else if c ∈ blanks then ([], .between)
  else if c = '#' then ([], .comment)
  else ([], .word [c])

/-- What the next character does: the tokens it completes, and the mode behind it. -/
def Mode.next (mode : Mode) (c : Char) : List Token × Mode :=
  match mode with
  | between => enter c
  | word read =>
    if isWordChar c then ([], .word (read ++ [c])) else (.word read :: (enter c).1, (enter c).2)
  | literal read => if c ∈ delimiters then ([], .quote read) else ([], .literal (read ++ [c]))
  | quote read =>
    if c ∈ delimiters then ([], .literal (read ++ [c]))
    else (.literal read :: (enter c).1, (enter c).2)
  | comment => if c = '\n' then enter c else ([], .comment)

/-- The tokens of a text that is read on from a mode. -/
def scan (mode : Mode) : List Char → List Token
  | [] => mode.finish
  | c :: rest => (mode.next c).1 ++ scan (mode.next c).2 rest

/-- Inside a literal, a character that is no quote is kept. -/
theorem scan_literal_cons {c : Char} (hquote : c ∉ delimiters) (read rest : List Char) :
    scan (.literal read) (c :: rest) = scan (.literal (read ++ [c])) rest := by
  simp only [scan, Mode.next, if_neg hquote, List.nil_append]

/-- Inside a literal, a quote leaves it open whether the literal has ended. -/
theorem scan_literal_quote {c : Char} (hquote : c ∈ delimiters) (read rest : List Char) :
    scan (.literal read) (c :: rest) = scan (.quote read) rest := by
  simp only [scan, Mode.next, if_pos hquote, List.nil_append]

/-- A second quote in a row stands for itself, and the literal goes on. -/
theorem scan_quote_quote {c : Char} (hquote : c ∈ delimiters) (read rest : List Char) :
    scan (.quote read) (c :: rest) = scan (.literal (read ++ [c])) rest := by
  simp only [scan, Mode.next, if_pos hquote, List.nil_append]

/-- Anything but a quote behind a quote shows that the literal has ended before it. -/
theorem scan_quote_cons {c : Char} (hquote : c ∉ delimiters) (read rest : List Char) :
    scan (.quote read) (c :: rest) = .literal read :: scan .between (c :: rest) := by
  simp only [scan, Mode.next, if_neg hquote, List.cons_append]

/-- The scan reads a literal up to the quote that ends it. -/
theorem scan_of_cutAtQuote? {chars before behind : List Char}
    (h : cutAtQuote? chars = some (before, behind)) (read : List Char) :
    scan (.literal read) chars = .literal (read ++ before) :: scan .between behind := by
  fun_induction cutAtQuote? chars generalizing before read with
  | case1 => exact absurd h (by simp)
  | case2 c hc =>
    obtain ⟨rfl, rfl⟩ := Prod.mk.inj (Option.some.inj h)
    rw [scan_literal_quote hc, List.append_nil]
    rfl
  | case3 => exact absurd h (by simp)
  | case4 c d rest hc hd ih =>
    obtain ⟨cut, hcut, heq⟩ := Option.map_eq_some_iff.mp h
    obtain ⟨rfl, rfl⟩ := Prod.mk.inj heq
    rw [scan_literal_quote hc, scan_quote_quote hd, ih hcut, List.append_assoc,
      List.singleton_append]
  | case5 c d rest hc hd =>
    obtain ⟨rfl, rfl⟩ := Prod.mk.inj (Option.some.inj h)
    rw [scan_literal_quote hc, scan_quote_cons hd, List.append_nil]
  | case6 c d rest hc ih =>
    obtain ⟨cut, hcut, heq⟩ := Option.map_eq_some_iff.mp h
    obtain ⟨rfl, rfl⟩ := Prod.mk.inj heq
    rw [scan_literal_cons hc, ih hcut, List.append_assoc, List.singleton_append]

/-- Where a text begins with a literal, the scanner returns it as one token. -/
theorem scan_of_readLiteral? {chars before behind : List Char}
    (h : readLiteral? chars = some (before, behind)) :
    scan .between chars = .literal before :: scan .between behind := by
  cases chars with
  | nil => exact absurd h (by simp [readLiteral?])
  | cons c rest =>
    rw [readLiteral?] at h
    split at h
    next hc =>
      have hbegin : scan .between (c :: rest) = scan (.literal []) rest := by
        simp only [scan, Mode.next, enter, if_pos hc, List.nil_append]
      rw [hbegin, scan_of_cutAtQuote? h, List.nil_append]
    next => exact absurd h (by simp)

/-- A literal is read as one token, as long as no quote follows it. -/
theorem scan_literal (text : String) {c : Char} (hquote : c ∉ delimiters) (rest : List Char) :
    scan .between ((literal text).toList ++ c :: rest) =
      .literal (content text) :: scan .between (c :: rest) := by
  refine scan_of_readLiteral? (readLiteral?_literal text ?_)
  rintro d ⟨rfl⟩
  exact hquote

/-- A word that has begun goes on to the next character that is not one of its own. -/
theorem scan_word_append {cs : List Char} (h : cs.all isWordChar = true) {c : Char}
    (hc : isWordChar c = false) (read rest : List Char) :
    scan (.word read) (cs ++ c :: rest) = .word (read ++ cs) :: scan .between (c :: rest) := by
  induction cs generalizing read with
  | nil => simp [scan, Mode.next, hc]
  | cons d cs ih =>
    rw [List.all_cons, Bool.and_eq_true] at h
    rw [List.cons_append, scan, Mode.next, if_pos h.1, List.nil_append, ih h.2, List.append_assoc,
      List.singleton_append]

/-- A text that is a word: it does not begin like a comment. -/
def isWord : List Char → Bool
  | [] => false
  | c :: rest => c != '#' && isWordChar c && rest.all isWordChar

/-- A word is read as one token, up to the first character that cannot belong to it. -/
theorem scan_word {cs : List Char} (h : isWord cs = true) {c : Char} (hc : isWordChar c = false)
    (rest : List Char) :
    scan .between (cs ++ c :: rest) = .word cs :: scan .between (c :: rest) := by
  cases cs with
  | nil => exact absurd h (by decide)
  | cons d cs =>
    rw [isWord, Bool.and_eq_true, Bool.and_eq_true] at h
    obtain ⟨⟨hhash, hd⟩, hcs⟩ := h
    have hbegin : enter d = ([], .word [d]) := by
      simp_all [isWordChar, enter]
    rw [List.cons_append, scan, Mode.next, hbegin, List.nil_append, scan_word_append hcs hc,
      List.singleton_append]

/-- Letters and digits belong to words. -/
theorem isWordChar_of_isAlphanum {c : Char} (h : c.isAlphanum = true) : isWordChar c = true := by
  have hall : ∀ d ∈ delimiters ++ marks ++ blanks, d.isAlphanum = false :=
    List.all_iff_forall_prop.mp (by decide)
  have hnot : c ∉ delimiters ++ marks ++ blanks := by
    intro hmem
    exact absurd (h.symm.trans (hall c hmem)) (by decide)
  simp only [List.mem_append, not_or] at hnot
  simp [isWordChar, hnot]

/-- Letters and digits alone make a word. -/
theorem isWord_of_forall_isAlphanum {cs : List Char} (hne : cs ≠ [])
    (h : ∀ c ∈ cs, c.isAlphanum = true) : isWord cs = true := by
  cases cs with
  | nil => exact absurd rfl hne
  | cons c rest =>
    have hc := h c List.mem_cons_self
    have hrest : rest.all isWordChar = true := by
      rw [List.all_eq_true]
      exact fun d hd => isWordChar_of_isAlphanum (h d (List.mem_cons_of_mem c hd))
    have hhash : c ≠ '#' := by
      rintro rfl
      exact absurd hc (by decide)
    rw [isWord, isWordChar_of_isAlphanum hc, hrest]
    simpa using hhash

/-- A number is a word. -/
theorem isWord_toString (n : Nat) : isWord (toString n).toList = true := by
  rw [Nat.toString_eq_ofList_toDigits, String.toList_ofList]
  refine isWord_of_forall_isAlphanum Nat.toDigits_ne_nil fun c hc => ?_
  rw [Char.isAlphanum, Nat.isDigit_of_mem_toDigits (by decide) (by decide) hc, Bool.or_true]

/-- A character that ends every word and every literal. -/
def isBreak (c : Char) : Bool :=
  c ∈ marks || c ∈ blanks

/-- No break is a quote. -/
theorem not_mem_delimiters_of_isBreak {c : Char} (h : isBreak c = true) : c ∉ delimiters := by
  have hall : ∀ d ∈ marks ++ blanks, d ∉ delimiters := List.all_iff_forall_prop.mp (by decide)
  rw [isBreak, Bool.or_eq_true, decide_eq_true_iff, decide_eq_true_iff, ← List.mem_append] at h
  exact hall c h

/-- No break belongs to a word. -/
theorem isWordChar_eq_false_of_isBreak {c : Char} (h : isBreak c = true) :
    isWordChar c = false := by
  have hall : ∀ d ∈ marks ++ blanks, isWordChar d = false :=
    List.all_iff_forall_prop.mp (by decide)
  rw [isBreak, Bool.or_eq_true, decide_eq_true_iff, decide_eq_true_iff, ← List.mem_append] at h
  exact hall c h

/-- Whatever follows, the piece is read as these tokens, and it leaves none incomplete. -/
def Passes (piece : List Char) (tokens : List Token) : Prop :=
  ∀ rest, scan .between (piece ++ rest) = tokens ++ scan .between rest

/-- As long as a break follows, the piece is read as these tokens. -/
def Scans (piece : List Char) (tokens : List Token) : Prop :=
  ∀ c rest, isBreak c = true →
    scan .between (piece ++ c :: rest) = tokens ++ scan .between (c :: rest)

section Pieces

variable {a b : List Char} {ts us : List Token}

/-- A piece that may stand anywhere can be joined with another one. -/
theorem Passes.append (ha : Passes a ts) (hb : Passes b us) : Passes (a ++ b) (ts ++ us) := by
  intro rest
  rw [List.append_assoc, ha, hb, List.append_assoc]

/-- A piece that may stand anywhere can be put before one that needs a break behind it. -/
theorem Passes.append_scans (ha : Passes a ts) (hb : Scans b us) : Scans (a ++ b) (ts ++ us) := by
  intro c rest hc
  rw [List.append_assoc, ha, hb c rest hc, List.append_assoc]

/-- A piece that needs a break behind it can be joined with one that begins with a break. -/
theorem Scans.append_passes {c : Char} (ha : Scans a ts) (hc : isBreak c = true)
    (hb : Passes (c :: b) us) : Passes (a ++ c :: b) (ts ++ us) := by
  intro rest
  have hrest := hb rest
  rw [List.cons_append] at hrest
  rw [List.append_assoc, List.cons_append, ha c _ hc, hrest, List.append_assoc]

/-- A piece that may stand anywhere may stand before a break. -/
theorem Passes.scans (ha : Passes a ts) : Scans a ts := fun c rest _ => ha (c :: rest)

/-- A literal is one token if a break follows it. -/
theorem scans_literal (text : String) : Scans (literal text).toList [.literal (content text)] :=
  fun _ rest hc => scan_literal text (not_mem_delimiters_of_isBreak hc) rest

/-- A word is one token if a break follows it. -/
theorem scans_word {chars : List Char} (h : isWord chars = true) : Scans chars [.word chars] :=
  fun _ rest hc => scan_word h (isWordChar_eq_false_of_isBreak hc) rest

/-- A mark is one token wherever it stands. -/
theorem passes_mark {c : Char} (h : c ∈ marks) : Passes [c] [.mark c] := by
  have hall : ∀ d ∈ marks, enter d = ([.mark d], .between) :=
    List.all_iff_forall_prop.mp (by decide)
  intro rest
  rw [List.singleton_append, scan, Mode.next, hall c h]

/-- Marks are breaks. -/
theorem isBreak_of_mem_marks {c : Char} (h : c ∈ marks) : isBreak c = true := by
  rw [isBreak, Bool.or_eq_true, decide_eq_true_iff]
  exact .inl h

/-- Pieces that are joined by a mark and a blank. -/
theorem scans_intercalate {α : Type} {source : α → List Char} {tokens : α → List Token}
    {list : List α} (h : ∀ x ∈ list, Scans (source x) (tokens x)) {sep : Char}
    (hsep : sep ∈ marks) :
    Scans ([sep, ' '].intercalate (list.map source))
      ([Token.mark sep].intercalate (list.map tokens)) := by
  have hblank : Passes [' '] [] := fun _ => rfl
  have hjoint := (passes_mark hsep).append hblank
  induction list with
  | nil => exact fun _ _ _ => rfl
  | cons x list ih =>
    have hx := h x List.mem_cons_self
    cases list with
    | nil => simpa using hx
    | cons y list =>
      have hrest := ih fun z hz => h z (List.mem_cons_of_mem x hz)
      rw [List.map_cons, List.map_cons, List.map_cons, List.map_cons, List.intercalate_cons_cons,
        List.intercalate_cons_cons]
      exact (hx.append_passes (isBreak_of_mem_marks hsep) hjoint).append_scans hrest

end Pieces

end ShellCompletion.Script.PowerShell
