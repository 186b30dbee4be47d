import ShellCompletion.Proofs.Script.Identifiers
import ShellCompletion.Proofs.Script.Template
import ShellCompletion.Yaml.Token.Scanner

/-!
# The tokens of lines with a key and a value

A block mapping whose keys and values are single words is scanned line by line. Each line takes
three turns of the scanner: the key is a plain scalar that might be a key, the colon shows that it
is one, and the value ends with the line because the next one is not indented. What the scanner
knows between two lines is always the same, except that the first key opens the mapping.

* **Words** (`IsWord`) have no character with a meaning of its own; all that is needed of these
  characters follows from a look at those up to 127 (`forall_isWordChar`).
* **One line**: the states `atLine`, `behindKey` and `behindColon`, and for each the way to the next
  token (`toToken_…`) and the token (`scanToken_…`), put together in `scanAtMost_line`.
* **All lines** (`scanAtMost_lines`), by induction over the lines.

Main statement: `tokens?_ofLines`.
-/

namespace ShellCompletion.Yaml

/-! ### Words -/

/-- A character that means nothing in YAML, wherever it stands. -/
def isWordChar (c : Char) : Bool :=
  c.isAlphanum || c == '_'

/-- A word: some characters without a meaning of their own. -/
structure IsWord (cs : List Char) : Prop where
  ne_nil : cs ≠ []
  forall_mem : ∀ c ∈ cs, isWordChar c = true

/-- Digits belong to words. -/
theorem isWordChar_of_isDigit {c : Char} (h : c.isDigit = true) : isWordChar c = true := by
  simp [isWordChar, Char.isAlphanum, h]

/-- The characters of words are among the first 128. -/
theorem toNat_lt_of_isWordChar {c : Char} (h : isWordChar c = true) : c.toNat < 128 := by
  rcases Bool.or_eq_true_iff.mp h with halnum | hline
  · exact Script.toNat_lt_of_isAlphanum halnum
  · rw [eq_of_beq hline]
    decide

/-- What holds of all characters up to 127 that belong to words holds of all that do. -/
theorem forall_isWordChar (p : Char → Bool)
    (hall : ∀ n < 128, isWordChar (Char.ofNat n) = true → p (Char.ofNat n) = true) {c : Char}
    (h : isWordChar c = true) : p c = true := by
  have hc := hall c.toNat (toNat_lt_of_isWordChar h)
  rw [Char.ofNat_toNat] at hc
  exact hc h

section Chars

variable {c : Char} (h : isWordChar c = true)

include h

/-- No character of a word ends a line. -/
theorem isBreak_of_isWordChar : isBreak c = false := by
  simpa using forall_isWordChar (fun c => !isBreak c) (by decide) h

/-- No character of a word is a blank. -/
theorem isBlank_of_isWordChar : isBlank c = false := by
  simpa using forall_isWordChar (fun c => !isBlank c) (by decide) h

/-- Every character of a word is allowed in a file. -/
theorem isPrintable_of_isWordChar : isPrintable c = true :=
  forall_isWordChar isPrintable (by decide) h

/-- A character of a word begins nothing but a plain scalar. -/
theorem isIndicator_of_isWordChar : Scanner.isIndicator c = false := by
  simpa using forall_isWordChar (fun c => !Scanner.isIndicator c) (by decide +kernel) h

/-- A character of a word differs from every character that belongs to none. -/
theorem ne_of_isWordChar {d : Char} (hd : isWordChar d = false) : c ≠ d := by
  rintro rfl
  exact absurd (h.symm.trans hd) (by simp)

/-- A line that begins with a word is no mark between documents. -/
theorem isDocumentMark_of_isWordChar (mark : Mark) (rest : List Char) :
    isDocumentMark mark (c :: rest) = false := by
  unfold isDocumentMark
  split
  next heq => exact absurd (List.cons.inj heq).1 (ne_of_isWordChar h (by decide))
  next heq => exact absurd (List.cons.inj heq).1 (ne_of_isWordChar h (by decide))
  next => simp

end Chars

/-! ### Plain scalars -/

/-- The characters of a word are read one after the other. -/
theorem readPlain_word {cs : List Char} (h : ∀ c ∈ cs, isWordChar c = true) (indent : Int)
    (mark : Mark) (text rest : List Char) :
    readPlain false indent mark .none text (cs ++ rest) =
      readPlain false indent (mark.advance cs.length) .none (cs.reverse ++ text) rest := by
  induction cs generalizing mark text with
  | nil => rfl
  | cons c cs ih =>
    have hc := h c List.mem_cons_self
    have hcolon : (c == ':') = false := beq_false_of_ne (ne_of_isWordChar hc (by decide))
    have hhash : (c == '#') = false := beq_false_of_ne (ne_of_isWordChar hc (by decide))
    have hread := ih (fun d hd => h d (List.mem_cons_of_mem c hd)) mark.next (c :: text)
    rw [List.cons_append, readPlain]
    simp only [isBreak_of_isWordChar hc, isBlank_of_isWordChar hc,
      isDocumentMark_of_isWordChar hc, hcolon, hhash, Gap.hasBreak, Bool.false_and, Bool.or_false,
      Bool.false_eq_true, if_false]
    show readPlain false indent mark.next .none (c :: text) (cs ++ rest) = _
    rw [hread]
    simp [Mark.next, Mark.advance, Nat.add_assoc, Nat.add_comm 1]

/-- A plain scalar ends before the colon of its value. -/
theorem readPlain_colon (indent : Int) (mark : Mark) (text rest : List Char) :
    readPlain false indent mark .none text (':' :: ' ' :: rest) =
      some {
        text := text.reverse
        cursor := ⟨':' :: ' ' :: rest, mark⟩
        breakFollows := false } := by
  have hmark : isDocumentMark mark (':' :: ' ' :: rest) = false := by
    simp [isDocumentMark]
  have hword : wordEnds (' ' :: rest) = true := rfl
  rw [readPlain]
  simp [isBreak, isBlank, hmark, hword, Gap.hasBreak]

/-- Nothing follows, or a line that begins with a word. -/
def BeginsLine (rest : List Char) : Prop :=
  ∀ c ∈ rest.head?, isWordChar c = true

/-- A plain scalar that is indented ends with its line if the next one is not indented. -/
theorem readPlain_newline {indent : Int} (hindent : 0 < indent) (mark : Mark)
    (text : List Char) {rest : List Char} (h : BeginsLine rest) :
    readPlain false indent mark .none text ('\n' :: rest) =
      some { text := text.reverse, cursor := ⟨rest, mark.nextLine⟩, breakFollows := true } := by
  have hbreak : isBreak '\n' = true := rfl
  rw [readPlain, if_pos hbreak]
  cases rest with
  | nil => rw [readPlain]; rfl
  | cons c rest =>
    have hc : isWordChar c = true := h c rfl
    have hcolumn : decide ((mark.nextLine.column : Int) < indent) = true := decide_eq_true hindent
    rw [readPlain]
    simp [isBreak_of_isWordChar hc, isBlank_of_isWordChar hc, hcolumn, Gap.addBreak, Gap.hasBreak]

/-! ### One line -/

namespace Scanner

/-- The scanner at the beginning of a line, before a mapping or in one. -/
def atLine (inMapping : Bool) (tokens : List Token) (mark : Mark) (rest : List Char) : Scanner where
  cursor := ⟨rest, mark⟩
  tokens := tokens
  count := tokens.length
  indent := if inMapping then 0 else -1
  outer := if inMapping then [-1] else []

/-- The scanner behind a key. -/
def behindKey (inMapping : Bool) (key : String) (tokens : List Token) (mark : Mark)
    (rest : List Char) : Scanner :=
  { atLine inMapping (.scalar key .plain :: tokens) (mark.advance key.length) rest with
    key := some { required := inMapping, position := tokens.length, mark }
    keyAllowed := false }

/-- The tokens of a key and its colon. The first key of a mapping opens it. -/
def keyTokens (inMapping : Bool) (key : String) : List Token :=
  (if inMapping then [] else [.blockMappingStart]) ++ [.key, .scalar key .plain, .value]

/-- The scanner behind the colon of a key. -/
def behindColon (inMapping : Bool) (key : String) (tokens : List Token) (mark : Mark)
    (rest : List Char) : Scanner :=
  { atLine true ((keyTokens inMapping key).reverse ++ tokens) mark rest with
    keyAllowed := false }

variable {inMapping : Bool} {tokens : List Token} {mark : Mark} {key value : String}
  {rest : List Char}

/-- Before a word there is nothing to pass over. -/
theorem passSeparation_word {c : Char} (h : isWordChar c = true) (inFlow keyAllowed : Bool)
    (mark : Mark) (rest : List Char) :
    passSeparation inFlow keyAllowed false mark (c :: rest) = (keyAllowed, ⟨c :: rest, mark⟩) := by
  have hmark : (c == byteOrderMark) = false := beq_false_of_ne (ne_of_isWordChar h (by decide))
  have hspace : (c == ' ') = false := beq_false_of_ne (ne_of_isWordChar h (by decide))
  have htab : (c == '\t') = false := beq_false_of_ne (ne_of_isWordChar h (by decide))
  have hhash : c ≠ '#' := ne_of_isWordChar h (by decide)
  rw [passSeparation]
  simp [isBreak_of_isWordChar h, hmark, hspace, htab, hhash]

/-- A possible key that is not too old is kept. -/
theorem dropStale_of_fresh {s : Scanner} (hkey : ∀ key ∈ s.key, isStale s.cursor.mark key = false)
    (houter : s.outerKeys = []) : s.dropStale = some s := by
  obtain ⟨cursor, tokens, count, indent, outer, key, outerKeys, keyAllowed⟩ := s
  obtain rfl : outerKeys = [] := houter
  unfold dropStale
  cases key with
  | none => rfl
  | some key =>
    have hfresh : isStale cursor.mark key = false := hkey key rfl
    simp [hfresh]

/-- Nothing is closed that is not deeper than the column. -/
theorem closeBlocks_of_le {s : Scanner} {column : Int} (h : s.indent ≤ column) :
    s.closeBlocks column = s := by
  obtain ⟨cursor, tokens, count, indent, outer, key, outerKeys, keyAllowed⟩ := s
  unfold closeBlocks
  split
  · rfl
  · cases outer with
    | nil => rfl
    | cons next outer =>
      rw [closeBlocksFrom, if_neg (Int.not_lt.mpr h)]

/-- The next token is gone on to, and nothing ends before it. -/
theorem toToken_of_pass {s : Scanner} {keyAllowed : Bool} {cursor : Cursor}
    (hpass : passSeparation s.inFlow s.keyAllowed false s.cursor.mark s.cursor.rest =
      (keyAllowed, cursor))
    (hkey : ∀ key ∈ s.key, isStale cursor.mark key = false) (houter : s.outerKeys = [])
    (hindent : s.indent ≤ cursor.mark.column) :
    s.toToken = some { s with keyAllowed, cursor } := by
  have hdrop : ({ s with keyAllowed, cursor } : Scanner).dropStale =
      some { s with keyAllowed, cursor } := dropStale_of_fresh hkey houter
  have hclose : ({ s with keyAllowed, cursor } : Scanner).closeBlocks cursor.mark.column =
      { s with keyAllowed, cursor } := closeBlocks_of_le hindent
  unfold toToken
  rw [hpass]
  simp only [hdrop]
  exact congrArg some hclose

/-- No token lies before the end of the text or a line that begins with a word. -/
theorem toToken_atLine (hcolumn : mark.column = 0) (h : BeginsLine rest) :
    (atLine inMapping tokens mark rest).toToken = some (atLine inMapping tokens mark rest) := by
  have hpass : passSeparation false true false mark rest = (true, ⟨rest, mark⟩) := by
    cases rest with
    | nil => rfl
    | cons c rest => exact passSeparation_word (h c rfl) false true mark rest
  refine toToken_of_pass hpass (by simp [atLine]) rfl ?_
  show (if inMapping then 0 else -1 : Int) ≤ mark.column
  split <;> omega

/-- Where a word begins, a plain scalar is scanned. -/
theorem scanToken_word {s : Scanner} {cs : List Char} (hcs : IsWord cs)
    (hrest : s.cursor.rest = cs ++ rest) : s.scanToken = s.scanPlain := by
  obtain ⟨c, cs, rfl⟩ := List.exists_cons_of_ne_nil hcs.ne_nil
  have hc : isWordChar c = true := hcs.forall_mem c List.mem_cons_self
  have hmark := isDocumentMark_of_isWordChar hc s.cursor.mark (cs ++ rest)
  unfold scanToken
  rw [hrest, List.cons_append]
  simp only [hmark, Bool.false_eq_true, if_false]
  split
  all_goals first
    | exact absurd hc (by decide)
    | simp [isBlank_of_isWordChar hc, isIndicator_of_isWordChar hc]

/-- A plain scalar that is read becomes a token, after its beginning has been noted as that of a
possible key. -/
theorem scanPlain_of_read {s s' : Scanner} {scalar : PlainScalar} (hnote : s.noteKey = some s')
    (hread : readPlain s'.inFlow (s'.indent + 1) s'.cursor.mark .none [] s'.cursor.rest =
      some scalar) :
    s.scanPlain = some (((s'.allowKey scalar.breakFollows).push
      (.scalar (String.ofList scalar.text) .plain)).moveTo scalar.cursor) := by
  unfold scanPlain
  rw [hnote]
  simp only [Option.bind_eq_bind, Option.bind_some, hread]
  rfl

/-- At the beginning of a line a key may begin. -/
theorem noteKey_atLine (hcolumn : mark.column = 0) :
    (atLine inMapping tokens mark rest).noteKey =
      some { atLine inMapping tokens mark rest with
        key := some { required := inMapping, position := tokens.length, mark } } := by
  unfold noteKey
  cases inMapping <;> simp [atLine, dropKey, inFlow, column, hcolumn]

/-- Behind the colon of a key, on the same line, no other key may begin. -/
theorem noteKey_behindColon :
    (behindColon inMapping key tokens mark rest).noteKey =
      some (behindColon inMapping key tokens mark rest) :=
  rfl

/-- A word at the beginning of a line may be a key. -/
theorem scanToken_atLine (hcolumn : mark.column = 0) (hkey : IsWord key.toList) :
    (atLine inMapping tokens mark (key.toList ++ ':' :: ' ' :: rest)).scanToken =
      some (behindKey inMapping key tokens mark (':' :: ' ' :: rest)) := by
  have hread := (readPlain_word hkey.forall_mem ((if inMapping then 0 else -1) + 1) mark []
    (':' :: ' ' :: rest)).trans (readPlain_colon _ _ _ _)
  rw [List.append_nil, List.reverse_reverse] at hread
  rw [scanToken_word hkey rfl, scanPlain_of_read (noteKey_atLine hcolumn) hread,
    String.ofList_toList, String.length_toList]
  rfl

/-- Behind a key the scanner stands at the colon already. -/
theorem toToken_behindKey (hlength : key.length ≤ maxKeyLength) :
    (behindKey inMapping key tokens mark (':' :: ' ' :: rest)).toToken =
      some (behindKey inMapping key tokens mark (':' :: ' ' :: rest)) := by
  have hpass : passSeparation false false false (mark.advance key.length) (':' :: ' ' :: rest) =
      (false, ⟨':' :: ' ' :: rest, mark.advance key.length⟩) := by
    simp [passSeparation, isBreak, byteOrderMark]
  refine toToken_of_pass hpass ?_ rfl ?_
  · rintro possible hpossible
    obtain rfl := Option.some.inj hpossible
    show (decide (mark.line < mark.line) ||
      decide (mark.index + maxKeyLength < mark.index + key.length)) = false
    rw [Bool.or_eq_false_iff, decide_eq_false_iff_not, decide_eq_false_iff_not]
    omega
  · show (if inMapping then 0 else -1 : Int) ≤ ((mark.column + key.length : Nat) : Int)
    split <;> omega

/-- The colon shows that it was one. -/
theorem scanToken_behindKey (hcolumn : mark.column = 0) :
    (behindKey inMapping key tokens mark (':' :: ' ' :: rest)).scanToken =
      some (behindColon inMapping key tokens (mark.advance (key.length + 1)) (' ' :: rest)) := by
  have hmark : isDocumentMark (mark.advance key.length) (':' :: ' ' :: rest) = false := by
    simp [isDocumentMark]
  have hvalue : (behindKey inMapping key tokens mark (':' :: ' ' :: rest)).scanToken =
      (behindKey inMapping key tokens mark (':' :: ' ' :: rest)).scanValue := by
    unfold scanToken
    simp only [behindKey, atLine, hmark]
    rfl
  rw [hvalue]
  unfold scanValue
  cases inMapping <;>
    simp [behindKey, behindColon, atLine, keyTokens, insert, openBlock, inFlow, hcolumn, allowKey,
      push, advance, moveTo, Cursor.advance, Mark.advance, Nat.add_assoc]

/-- Behind the colon, the way to the value is a single blank. -/
theorem toToken_behindColon (hvalue : IsWord value.toList) :
    (behindColon inMapping key tokens mark (' ' :: (value.toList ++ rest))).toToken =
      some (behindColon inMapping key tokens mark.next (value.toList ++ rest)) := by
  obtain ⟨c, cs, hcs⟩ := List.exists_cons_of_ne_nil hvalue.ne_nil
  have hc : isWordChar c = true := hvalue.forall_mem c (by rw [hcs]; exact List.mem_cons_self)
  have hpass : passSeparation false false false mark (' ' :: (value.toList ++ rest)) =
      (false, ⟨value.toList ++ rest, mark.next⟩) := by
    rw [hcs, List.cons_append, passSeparation]
    simp [isBreak, passSeparation_word hc]
  refine toToken_of_pass hpass (by simp [behindColon, atLine]) rfl ?_
  show (0 : Int) ≤ (mark.next.column : Int)
  omega

/-- The value is read up to the end of its line, and the next line begins. -/
theorem scanToken_behindColon (hvalue : IsWord value.toList) (h : BeginsLine rest) :
    (behindColon inMapping key tokens mark (value.toList ++ '\n' :: rest)).scanToken =
      some (atLine true (.scalar value .plain :: (keyTokens inMapping key).reverse ++ tokens)
        (mark.advance value.length).nextLine rest) := by
  have hread := (readPlain_word hvalue.forall_mem 1 mark [] ('\n' :: rest)).trans
    (readPlain_newline (by decide) _ _ h)
  rw [List.append_nil, List.reverse_reverse] at hread
  rw [scanToken_word hvalue rfl, scanPlain_of_read noteKey_behindColon hread, String.ofList_toList,
    String.length_toList]
  rfl

/-! ### All lines -/

/-- One token more is the first one and then the rest. -/
theorem scanAtMost_succ {s s' s'' : Scanner} {more : Nat} (hto : s.toToken = some s')
    (hrest : s'.cursor.rest ≠ []) (hscan : s'.scanToken = some s'') :
    scanAtMost (more + 1) s = scanAtMost more s'' := by
  rw [scanAtMost]
  simp only [Option.bind_eq_bind, hto, Option.bind_some, if_neg hrest, hscan]

/-- At the end of the text the mapping is closed. -/
theorem scanAtMost_end (more : Nat) (hcolumn : mark.column = 0) :
    scanAtMost (more + 1) (atLine true tokens mark []) =
      some (tokens.reverse ++ [.blockEnd, .streamEnd]) := by
  have hto : (atLine true tokens mark []).toToken = some (atLine true tokens mark []) :=
    toToken_atLine hcolumn (by simp [BeginsLine])
  have hend : (atLine true tokens mark []).scanEnd =
      some (((atLine true tokens mark []).closeBlocks (-1)).push .streamEnd) := rfl
  have hclose : (((atLine true tokens mark []).closeBlocks (-1)).push .streamEnd).tokens =
      .streamEnd :: .blockEnd :: tokens := rfl
  have hrest : (atLine true tokens mark []).cursor.rest = [] := rfl
  rw [scanAtMost]
  simp only [Option.bind_eq_bind, hto, Option.bind_some, if_pos hrest, hend, hclose]
  simp

end Scanner

/-- A line that gives a word as its value to a word as its key. -/
structure Entry where
  /-- The key. -/
  key : String
  /-- The value. -/
  value : String
  key_word : IsWord key.toList
  key_length : key.length ≤ Scanner.maxKeyLength
  value_word : IsWord value.toList

namespace Entry

/-- The line of an entry. -/
def line (entry : Entry) : String :=
  entry.key ++ ": " ++ entry.value

/-- The tokens of a line. -/
def tokens (entry : Entry) : List Token :=
  [.key, .scalar entry.key .plain, .value, .scalar entry.value .plain]

/-- The characters of the lines. -/
def chars (entries : List Entry) : List Char :=
  (Text.ofLines (entries.map line)).toList

/-- The lines of a mapping are its first line and then the others. -/
theorem chars_cons (entry : Entry) (entries : List Entry) :
    chars (entry :: entries) =
      entry.key.toList ++ ':' :: ' ' :: (entry.value.toList ++ '\n' :: chars entries) := by
  have hsign : (": " : String).toList = [':', ' '] := by decide
  rw [chars, List.map_cons, Script.toList_ofLines_cons, line, String.toList_append,
    String.toList_append, hsign]
  simp [chars]

/-- Where one line ends, another one begins or the file ends. -/
theorem beginsLine_chars (entries : List Entry) : BeginsLine (chars entries) := by
  cases entries with
  | nil => simp [chars, Text.ofLines, BeginsLine]
  | cons entry entries =>
    obtain ⟨c, cs, hcs⟩ := List.exists_cons_of_ne_nil entry.key_word.ne_nil
    rintro d hd
    rw [chars_cons, hcs] at hd
    obtain rfl := Option.some.inj hd
    exact entry.key_word.forall_mem _ (by rw [hcs]; exact List.mem_cons_self)

end Entry

namespace Scanner

variable {inMapping : Bool} {tokens : List Token} {mark : Mark}

/-- On each line three tokens are scanned; the others come without a sign of their own. -/
theorem scanAtMost_line (more : Nat) (hcolumn : mark.column = 0) (entry : Entry)
    (entries : List Entry) :
    ∃ mark' : Mark, mark'.column = 0 ∧
      scanAtMost (more + 3) (atLine inMapping tokens mark (Entry.chars (entry :: entries))) =
        scanAtMost more (atLine true
          (.scalar entry.value .plain :: (keyTokens inMapping entry.key).reverse ++ tokens) mark'
          (Entry.chars entries)) := by
  have hbegins := Entry.beginsLine_chars (entry :: entries)
  rw [Entry.chars_cons] at hbegins ⊢
  refine ⟨((mark.advance (entry.key.length + 1)).next.advance entry.value.length).nextLine, rfl, ?_⟩
  calc
    _ = scanAtMost (more + 2) (behindKey inMapping entry.key tokens mark
          (':' :: ' ' :: (entry.value.toList ++ '\n' :: Entry.chars entries))) :=
      scanAtMost_succ (toToken_atLine hcolumn hbegins) (by simp [atLine])
        (scanToken_atLine hcolumn entry.key_word)
    _ = scanAtMost (more + 1) (behindColon inMapping entry.key tokens
          (mark.advance (entry.key.length + 1))
          (' ' :: (entry.value.toList ++ '\n' :: Entry.chars entries))) :=
      scanAtMost_succ (toToken_behindKey entry.key_length) (by simp [behindKey, atLine])
        (scanToken_behindKey hcolumn)
    _ = _ :=
      scanAtMost_succ (toToken_behindColon entry.value_word) (by simp [behindColon, atLine])
        (scanToken_behindColon entry.value_word (Entry.beginsLine_chars entries))

/-- The lines of a mapping that has begun. -/
theorem scanAtMost_lines (more : Nat) (hcolumn : mark.column = 0) (entries : List Entry) :
    scanAtMost (more + 1 + 3 * entries.length) (atLine true tokens mark (Entry.chars entries)) =
      some (tokens.reverse ++ entries.flatMap Entry.tokens ++ [.blockEnd, .streamEnd]) := by
  induction entries generalizing tokens mark with
  | nil =>
    have hend := @scanAtMost_end tokens mark more hcolumn
    simpa [Entry.chars, Text.ofLines] using hend
  | cons entry entries ih =>
    obtain ⟨mark', hcolumn', hline⟩ := @scanAtMost_line true tokens mark
      (more + 1 + 3 * entries.length) hcolumn entry entries
    rw [List.length_cons, Nat.mul_succ, ← Nat.add_assoc, hline, ih hcolumn']
    simp [keyTokens, Entry.tokens]

/-- The lines of a mapping are scanned. -/
theorem scanAtMost_mapping (more : Nat) (entry : Entry) (entries : List Entry) :
    scanAtMost (more + 1 + 3 * (entries.length + 1))
        { cursor := ⟨Entry.chars (entry :: entries), {}⟩ } =
      some (.blockMappingStart :: (entry :: entries).flatMap Entry.tokens ++
        [.blockEnd, .streamEnd]) := by
  obtain ⟨mark', hcolumn', hline⟩ := @scanAtMost_line false [] {}
    (more + 1 + 3 * entries.length) rfl entry entries
  rw [Nat.mul_succ, ← Nat.add_assoc]
  refine hline.trans ?_
  rw [scanAtMost_lines more hcolumn']
  simp [keyTokens, Entry.tokens]

end Scanner

/-! ### The whole text -/

/-- A character that the lines of entries may hold. -/
def isLineChar (c : Char) : Bool :=
  isWordChar c || c == ':' || c == ' ' || c == '\n'

/-- The lines hold nothing but characters of words, colons, blanks and line ends. -/
theorem isLineChar_of_mem_chars {entries : List Entry} {c : Char} (h : c ∈ Entry.chars entries) :
    isLineChar c = true := by
  induction entries with
  | nil => simp [Entry.chars, Text.ofLines] at h
  | cons entry entries ih =>
    rw [Entry.chars_cons] at h
    simp only [List.mem_append, List.mem_cons] at h
    unfold isLineChar
    rcases h with hkey | rfl | rfl | hvalue | rfl | hrest
    · simp [entry.key_word.forall_mem c hkey]
    · rfl
    · rfl
    · simp [entry.value_word.forall_mem c hvalue]
    · rfl
    · exact ih hrest

/-- What the lines hold is allowed in a file. -/
theorem isPrintable_of_isLineChar {c : Char} (h : isLineChar c = true) : isPrintable c = true := by
  unfold isLineChar at h
  simp only [Bool.or_eq_true, beq_iff_eq] at h
  rcases h with ((hword | rfl) | rfl) | rfl
  · exact isPrintable_of_isWordChar hword
  · rfl
  · rfl
  · rfl

/-- Where all lines end in a line feed, nothing is unified. -/
theorem unifyBreaks_of_isLineChar {cs : List Char} (h : ∀ c ∈ cs, isLineChar c = true) :
    unifyBreaks cs = cs := by
  have hreturn : isLineChar '\r' ≠ true := by decide
  have hnext : isLineChar '\u0085' ≠ true := by decide
  fun_induction unifyBreaks cs with
  | case1 => rfl
  | case2 rest ih => exact absurd (h _ List.mem_cons_self) hreturn
  | case3 rest hnot ih => exact absurd (h _ List.mem_cons_self) hreturn
  | case4 rest ih => exact absurd (h _ List.mem_cons_self) hnext
  | case5 c rest _ _ _ ih => rw [ih fun d hd => h d (List.mem_cons_of_mem c hd)]

/-- Each line has at least three characters, so the bound on the tokens is not met. -/
theorem three_mul_le_length_chars (entries : List Entry) :
    3 * entries.length ≤ (Entry.chars entries).length := by
  induction entries with
  | nil => simp
  | cons entry entries ih =>
    rw [Entry.chars_cons]
    simp only [List.length_append, List.length_cons]
    omega

/-- **Lines of entries are a block mapping.** Its tokens are those of the lines. -/
theorem tokens?_ofLines {entries : List Entry} (h : entries ≠ []) :
    tokens? (Text.ofLines (entries.map Entry.line)) =
      some (.blockMappingStart :: entries.flatMap Entry.tokens ++ [.blockEnd, .streamEnd]) := by
  obtain ⟨entry, entries, rfl⟩ := List.exists_cons_of_ne_nil h
  have hchars : (Text.ofLines ((entry :: entries).map Entry.line)).toList =
      Entry.chars (entry :: entries) := rfl
  have hall : (Entry.chars (entry :: entries)).all isPrintable = true :=
    List.all_eq_true.mpr fun c hc => isPrintable_of_isLineChar (isLineChar_of_mem_chars hc)
  obtain ⟨more, hmore⟩ := Nat.exists_eq_add_of_le (three_mul_le_length_chars (entry :: entries))
  have hfuel : (Entry.chars (entry :: entries)).length + 1 =
      more + 1 + 3 * (entries.length + 1) := by
    rw [hmore, List.length_cons]
    omega
  rw [tokens?, hchars, if_pos hall, hfuel,
    unifyBreaks_of_isLineChar fun _ hc => isLineChar_of_mem_chars hc]
  exact Scanner.scanAtMost_mapping more entry entries

end ShellCompletion.Yaml
