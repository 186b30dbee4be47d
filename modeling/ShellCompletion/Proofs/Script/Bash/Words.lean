import ShellCompletion.Proofs.Script.Bash.Keys

/-!
# Words as Bash reads them

Bash reads a text from left to right. Outside quotes a backslash saves the character behind it, and
together with a newline it vanishes. Any other character stands for itself or is active. An active
blank ends a word, and a quote begins one even if nothing follows it.

* **Reading** (`run`): what Bash meets in a text, and where that leaves it. Texts that Bash reads to
  their end outside quotes may be joined (`Reads.append`).
* **Words** (`splitWords?`): what is read of a list of words (`reads_words`) is parted at the blanks
  between them. Only a text of which nothing is written gets quotes, so one of which only newlines
  are written makes no word (`Vanishes`).

Main statements: `run_escape` and `splitWords?_words`. That a newline alone makes no word is
`newline_makes_no_word`.
-/

namespace ShellCompletion.Script.Bash

/-! ### Reading -/

/-- The characters that are active outside quotes. A backslash is not among them; it has a rule of
its own. -/
def metacharacters : List Char :=
  [' ', '\t', '\n', '"', '\'', '$', '\x60', '|', '&', ';', '(', ')', '<', '>', '*', '?', '[', ']',
    '\x7b', '\x7d', '~', '#', '!']

/-- What Bash meets in a text. -/
inductive Item where
  /-- A character that stands for itself. -/
  | literal (c : Char)
  /-- A character that Bash acts on. -/
  | active (c : Char)
  deriving DecidableEq, Repr

/-- Where Bash is in a text. -/
inductive Mode where
  /-- Outside quotes. -/
  | unquoted
  /-- Outside quotes, behind a backslash. -/
  | pending
  /-- Between single quotes. -/
  | quoted
  deriving DecidableEq, Repr

/-- What the next character does: what Bash meets there, and the mode behind it. -/
def Mode.next (mode : Mode) (c : Char) : List Item × Mode :=
  match mode with
  | unquoted =>
    if c = '\\' then ([], .pending)
    else if c = '\'' then ([.active c], .quoted)
    else if c ∈ metacharacters then ([.active c], .unquoted)
    else ([.literal c], .unquoted)
  | pending => if c = '\n' then ([], .unquoted) else ([.literal c], .unquoted)
  | quoted => if c = '\'' then ([], .unquoted) else ([.literal c], .quoted)

/-- What Bash meets in a text that is read on from a mode, and the mode behind the text. -/
def run (mode : Mode) : List Char → List Item × Mode
  | [] => ([], mode)
  | c :: rest =>
    ((mode.next c).1 ++ (run (mode.next c).2 rest).1, (run (mode.next c).2 rest).2)

/-- A text is read piece by piece, each piece in the mode that the one before leaves. -/
theorem run_append (mode : Mode) (chars rest : List Char) :
    run mode (chars ++ rest) =
      ((run mode chars).1 ++ (run (run mode chars).2 rest).1, (run (run mode chars).2 rest).2) := by
  induction chars generalizing mode with
  | nil => rfl
  | cons c chars ih => simp only [List.cons_append, run, ih, List.append_assoc]

/-- Bash reads the text to its end outside quotes, with no backslash left over, and meets this. -/
def Reads (chars : List Char) (items : List Item) : Prop :=
  run .unquoted chars = (items, .unquoted)

/-- What Bash meets in two texts is met in both together. -/
theorem Reads.append {a b : List Char} {items others : List Item} (ha : Reads a items)
    (hb : Reads b others) : Reads (a ++ b) (items ++ others) := by
  rw [Reads, run_append, ha, hb]

/-- An escaped character is met as itself, unless Bash loses it. -/
theorem reads_escapeChar (c : Char) :
    Reads (escapeChar c) (([c].filter (· ∉ View.read.lost)).map .literal) := by
  have hactive : metacharacters ⊆ activeChars := by decide
  rcases escapeChar_cases c with ⟨rfl, hc⟩ | ⟨hnul, -, hc⟩ | ⟨hnul, hplain, hc⟩
  · rw [hc]
    rfl
  · rw [hc, Reads]
    -- of the characters behind a backslash only a newline is lost
    by_cases hline : c = '\n'
    · rw [hline]
      decide
    · simp [run, Mode.next, View.lost, hnul, hline]
  · have hmeta : c ∉ metacharacters := fun hmem => hplain (hactive hmem)
    have hslash : c ≠ '\\' := ne_backslash_of_not_mem_activeChars hplain
    have hquote : c ≠ '\'' := fun heq => hmeta (heq ▸ by decide)
    have hline : c ≠ '\n' := fun heq => hmeta (heq ▸ by decide)
    rw [hc, Reads]
    simp [run, Mode.next, View.lost, hnul, hline, hslash, hquote, hmeta]

/-- An escaped text is met as its characters, without those that Bash loses. -/
theorem reads_escape (text : String) :
    Reads (escape text).toList ((View.read.kept text).map .literal) := by
  rw [toList_escape, View.kept]
  induction text.toList with
  | nil => rfl
  | cons c chars ih =>
    have hcons := (reads_escapeChar c).append ih
    rwa [← List.map_append, ← List.filter_append, List.singleton_append] at hcons

/-- **An escaped text is safe.** Bash reads it to its end outside quotes, with no backslash left
over. It meets the characters of the text that are not lost, each of them as itself, and nothing
that is active. Whatever follows is read as if it stood alone. -/
theorem run_escape (text : String) :
    run .unquoted (escape text).toList = ((View.read.kept text).map .literal, .unquoted) ∧
      (∀ c, .active c ∉ (run .unquoted (escape text).toList).1) ∧
      ∀ rest, run .unquoted ((escape text).toList ++ rest) =
        ((View.read.kept text).map .literal ++ (run .unquoted rest).1, (run .unquoted rest).2) := by
  have hread := reads_escape text
  rw [Reads] at hread
  refine ⟨hread, ?_, ?_⟩
  · intro c hactive
    rw [hread] at hactive
    obtain ⟨d, -, heq⟩ := List.mem_map.mp hactive
    cases heq
  · intro rest
    rw [run_append, hread]

/-- Not every text is: here a dollar sign is active, and the last backslash is left over. -/
example : run .unquoted "a$\\\\\\".toList =
    ([.literal 'a', .active '$', .literal '\\'], .pending) := by
  decide

/-! ### Words -/

/-- The words in what Bash meets. `word` is what has been read of a word that is not yet complete. A
quote begins a word, and a blank ends it; at any other active character Bash does something else
than read words. -/
def wordsOf? (word : Option (List Char)) : List Item → Option (List (List Char))
  | [] => some word.toList
  | .literal c :: items => wordsOf? (some (word.getD [] ++ [c])) items
  | .active c :: items =>
    if c = '\'' then wordsOf? (some (word.getD [])) items
    else if c = ' ' ∨ c = '\t' then (wordsOf? none items).map (word.toList ++ ·)
    else none

/-- The words of a text, if it has words only. -/
def splitWords? (chars : List Char) : Option (List (List Char)) :=
  match run .unquoted chars with
  | (items, .unquoted) => wordsOf? none items
  | _ => none

/-- The words of a text are put together from what Bash meets in it. -/
theorem Reads.splitWords? {chars : List Char} {items : List Item} (h : Reads chars items) :
    splitWords? chars = wordsOf? none items := by
  rw [Reads] at h
  rw [Bash.splitWords?, h]

/-- What Bash meets in a word. -/
def wordItems (text : String) : List Item :=
  if escape text = "" then [.active '\''] else (View.read.kept text).map .literal

/-- A text that is written as a word is met as the items of the word. -/
theorem reads_word (text : String) : Reads (word text).toList (wordItems text) := by
  unfold word wordItems
  split
  · rfl
  · exact reads_escape text

/-- Words are met one after the other, with the blanks between them. -/
theorem reads_words (texts : List String) :
    Reads (words texts).toList ([Item.active ' '].intercalate (texts.map wordItems)) := by
  have hblank : Reads [' '] [.active ' '] := by rfl
  rw [words, String.toList_intercalate, List.map_map]
  induction texts with
  | nil => rfl
  | cons text texts ih =>
    cases texts with
    | nil =>
      rw [List.map_singleton, List.map_singleton, List.intercalate_singleton,
        List.intercalate_singleton]
      exact reads_word text
    | cons next texts =>
      rw [List.map_cons, List.map_cons, List.map_cons, List.map_cons, List.intercalate_cons_cons,
        List.intercalate_cons_cons]
      exact ((reads_word text).append hblank).append ih

/-- All that is written of the text are newlines, and these vanish. -/
def Vanishes (text : String) : Prop :=
  '\n' ∈ text.toList ∧ ∀ c ∈ text.toList, c = '\n' ∨ c = '\x00'

instance : DecidablePred Vanishes :=
  fun text => inferInstanceAs (Decidable ('\n' ∈ text.toList ∧ _))

/-- Nothing is left by escaping only where there are NULs alone. -/
theorem escape_eq_empty_iff (text : String) :
    escape text = "" ↔ ∀ c ∈ text.toList, c = '\x00' := by
  have hchar : ∀ c, escapeChar c = [] ↔ c = '\x00' := by
    intro c
    rcases escapeChar_cases c with ⟨rfl, hc⟩ | ⟨hnul, -, hc⟩ | ⟨hnul, -, hc⟩
    · rw [hc]
      simp
    · simp [hc, hnul]
    · simp [hc, hnul]
  rw [← String.toList_inj, toList_escape, String.toList_empty, List.flatMap_eq_nil_iff]
  simp only [hchar]

/-- Bash sees nothing of a text only where there are line ends and NULs alone. -/
theorem kept_eq_nil_iff (text : String) :
    View.read.kept text = [] ↔ ∀ c ∈ text.toList, c = '\n' ∨ c = '\x00' := by
  rw [View.kept, List.filter_eq_nil_iff]
  refine forall₂_congr fun c _ => ?_
  rw [decide_eq_true_iff, not_not, View.lost, List.mem_pair, or_comm]

/-- A text vanishes exactly if something is written of it of which Bash reads nothing. -/
theorem vanishes_iff (text : String) :
    Vanishes text ↔ escape text ≠ "" ∧ View.read.kept text = [] := by
  rw [Vanishes, ne_eq, escape_eq_empty_iff, kept_eq_nil_iff, and_congr_left_iff]
  intro hlost
  constructor
  · intro hline hnul
    exact absurd (hnul _ hline) (by decide)
  · intro hwritten
    push Not at hwritten
    obtain ⟨c, hc, hnul⟩ := hwritten
    exact (hlost c hc).resolve_right hnul ▸ hc

/-- The word that a text makes. -/
def wordOf? (text : String) : Option (List Char) :=
  if Vanishes text then none else some (View.read.kept text)

/-- Characters go on with the word that is open. -/
theorem wordsOf?_literals (read chars : List Char) (items : List Item) :
    wordsOf? (some read) (chars.map .literal ++ items) = wordsOf? (some (read ++ chars)) items := by
  induction chars generalizing read with
  | nil => rw [List.map_nil, List.nil_append, List.append_nil]
  | cons c chars ih =>
    rw [List.map_cons, List.cons_append, wordsOf?, Option.getD_some, ih, List.append_assoc,
      List.singleton_append]

/-- Behind a text the word that it makes has been read, and nothing has ended it. -/
theorem wordsOf?_wordItems (text : String) (items : List Item) :
    wordsOf? none (wordItems text ++ items) = wordsOf? (wordOf? text) items := by
  have hiff := vanishes_iff text
  rw [wordItems, wordOf?]
  by_cases hvanishes : Vanishes text
  · obtain ⟨hwritten, hkept⟩ := hiff.mp hvanishes
    rw [if_pos hvanishes, if_neg hwritten, hkept]
    rfl
  · rw [if_neg hvanishes]
    by_cases hwritten : escape text = ""
    · -- nothing is written of the text, so there are quotes to begin an empty word
      have hkept : View.read.kept text = [] :=
        (kept_eq_nil_iff text).mpr fun c hc => .inr ((escape_eq_empty_iff text).mp hwritten c hc)
      rw [if_pos hwritten, hkept]
      rfl
    · rw [if_neg hwritten]
      cases hkept : View.read.kept text with
      | nil => exact absurd (hiff.mpr ⟨hwritten, hkept⟩) hvanishes
      | cons c chars =>
        rw [List.map_cons, List.cons_append, wordsOf?, Option.getD_none, List.nil_append,
          wordsOf?_literals, List.singleton_append]

/-- Of the words of several texts, the first is there unless its text vanishes. -/
theorem toList_wordOf?_append (text : String) (texts : List String) :
    (wordOf? text).toList ++ (texts.filter (¬Vanishes ·)).map View.read.kept =
      ((text :: texts).filter (¬Vanishes ·)).map View.read.kept := by
  rw [wordOf?]
  by_cases hvanishes : Vanishes text
  · simp [hvanishes]
  · simp [hvanishes]

/-- The blanks between the texts end their words. -/
theorem wordsOf?_intercalate (texts : List String) :
    wordsOf? none ([Item.active ' '].intercalate (texts.map wordItems)) =
      some ((texts.filter (¬Vanishes ·)).map View.read.kept) := by
  induction texts with
  | nil => rfl
  | cons text texts ih =>
    rw [← toList_wordOf?_append]
    cases texts with
    | nil =>
      have hend := wordsOf?_wordItems text []
      rw [List.append_nil, wordsOf?] at hend
      rw [List.map_singleton, List.intercalate_singleton, hend, List.filter_nil, List.map_nil,
        List.append_nil]
    | cons next texts =>
      rw [List.map_cons, List.map_cons, List.intercalate_cons_cons, List.append_assoc,
        List.singleton_append, wordsOf?_wordItems, wordsOf?, if_neg (by decide),
        if_pos (.inl rfl), ← List.map_cons, ih, Option.map_some]

/-- **One word for each text that does not vanish.** The words of a list are its texts, in order and
without the characters that are lost, except that a text that vanishes makes no word. So there is
one word for each text exactly if none of them vanishes. -/
theorem splitWords?_words (texts : List String) :
    splitWords? (words texts).toList = some ((texts.filter (¬Vanishes ·)).map View.read.kept) ∧
      (splitWords? (words texts).toList = some (texts.map View.read.kept) ↔
        ∀ text ∈ texts, ¬Vanishes text) := by
  have hsplit : splitWords? (words texts).toList =
      some ((texts.filter (¬Vanishes ·)).map View.read.kept) := by
    rw [(reads_words texts).splitWords?, wordsOf?_intercalate]
  refine ⟨hsplit, ?_⟩
  rw [hsplit, Option.some_inj]
  constructor
  · intro heq text hmem
    -- a filter that leaves as many texts as there were leaves all of them
    have hlength := congrArg List.length heq
    rw [List.length_map, List.length_map, List.length_filter_eq_length_iff] at hlength
    exact of_decide_eq_true (hlength text hmem)
  · intro hall
    rw [List.filter_eq_self.mpr fun text hmem => decide_eq_true (hall text hmem)]

/-- **A newline alone makes no word**, and the next word takes its place. -/
theorem newline_makes_no_word :
    splitWords? (words ["\n"]).toList = some [] ∧ ["\n"].map View.read.kept = [[]] ∧
      splitWords? (words ["a", "\n", "b"]).toList = some [['a'], ['b']] := by
  decide

end ShellCompletion.Script.Bash
