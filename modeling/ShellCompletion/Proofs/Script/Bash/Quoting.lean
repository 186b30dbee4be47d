import ShellCompletion.Script.Bash.Word

/-!
# Reading Bash words back

What Bash makes of a text that is written without quotes around it: a backslash stands for nothing
itself and saves the character behind it, whatever that is. Read that way an escaped text is what it
was before, but for its NULs, which are not written, and its newlines, which join two lines when a
backslash stands before them.

* **Taking the backslashes out** (`unescape_flatMap_escapeChar`).
* **Finding a bracket** (`cutAtBracket?_flatMap_escapeChar`): the first bracket without a backslash
  is the one behind the escaped text, whatever brackets are in the text.
-/

namespace ShellCompletion.Script.Bash

/-- Escaping goes character by character. -/
theorem toList_escape (text : String) : (escape text).toList = text.toList.flatMap escapeChar :=
  String.toList_ofList

/-- A character is left out, written behind a backslash or written as it is. -/
theorem escapeChar_cases (c : Char) :
    (c = '\x00' ∧ escapeChar c = []) ∨
      (c ≠ '\x00' ∧ c ∈ activeChars ∧ escapeChar c = ['\\', c]) ∨
        (c ≠ '\x00' ∧ c ∉ activeChars ∧ escapeChar c = [c]) := by
  rw [escapeChar]
  by_cases hnul : c = '\x00'
  · exact .inl ⟨hnul, if_pos hnul⟩
  · rw [if_neg hnul]
    by_cases hactive : c ∈ activeChars
    · exact .inr (.inl ⟨hnul, hactive, if_pos hactive⟩)
    · exact .inr (.inr ⟨hnul, hactive, if_neg hactive⟩)

/-- NULs are not written. -/
theorem flatMap_escapeChar_filter (chars : List Char) :
    (chars.filter (· ∉ ['\x00'])).flatMap escapeChar = chars.flatMap escapeChar := by
  induction chars with
  | nil => rfl
  | cons c rest ih =>
    by_cases hnul : c = '\x00'
    · simp [hnul, ← ih, escapeChar]
    · simp [hnul, ← ih]

/-- A character that is not escaped is no backslash. -/
theorem ne_backslash_of_not_mem_activeChars {c : Char} (h : c ∉ activeChars) : c ≠ '\\' := by
  rintro rfl
  exact h (by decide)

/-! ### Taking the backslashes out -/

/-- The text that is meant by a text with backslashes in it. A backslash saves the character behind
it; only a joint vanishes with its backslash. -/
def unescape (joints : List Char) : List Char → List Char
  | [] => []
  | '\\' :: c :: rest => if c ∈ joints then unescape joints rest else c :: unescape joints rest
  | c :: rest => c :: unescape joints rest

/-- A character besides the backslash stands for itself. -/
theorem unescape_cons {c : Char} (h : c ≠ '\\') (joints rest : List Char) :
    unescape joints (c :: rest) = c :: unescape joints rest := by
  rw [unescape]
  intro _ _ heq
  exact absurd heq h

/-- **An escaped text is meant to be what it was**, without its NULs and without the joints. -/
theorem unescape_flatMap_escapeChar {joints : List Char} (h : joints ⊆ activeChars)
    (chars : List Char) :
    unescape joints (chars.flatMap escapeChar) = chars.filter (· ∉ '\x00' :: joints) := by
  induction chars with
  | nil => rfl
  | cons c rest ih =>
    rw [List.flatMap_cons]
    rcases escapeChar_cases c with ⟨rfl, hc⟩ | ⟨hnul, -, hc⟩ | ⟨hnul, hactive, hc⟩
    · simp [hc, ih]
    · rw [hc, List.cons_append, List.singleton_append, unescape, ih]
      by_cases hjoint : c ∈ joints
      · simp [hjoint]
      · simp [hjoint, hnul]
    · have hjoint : c ∉ joints := fun hc => hactive (h hc)
      have hplain := ne_backslash_of_not_mem_activeChars hactive
      rw [hc, List.singleton_append, unescape_cons hplain, ih]
      simp [hjoint, hnul]

/-! ### Finding a bracket -/

/-- What stands before and behind the first closing bracket that has no backslash before it. -/
def cutAtBracket? : List Char → Option (List Char × List Char)
  | [] => none
  | ']' :: rest => some ([], rest)
  | '\\' :: c :: rest => (cutAtBracket? rest).map fun cut => ('\\' :: c :: cut.1, cut.2)
  | c :: rest => (cutAtBracket? rest).map fun cut => (c :: cut.1, cut.2)

/-- A character besides the bracket and the backslash belongs to the key. -/
theorem cutAtBracket?_cons {c : Char} (hbracket : c ≠ ']') (hbackslash : c ≠ '\\')
    (rest : List Char) :
    cutAtBracket? (c :: rest) = (cutAtBracket? rest).map fun cut => (c :: cut.1, cut.2) := by
  rw [cutAtBracket?]
  · exact hbracket
  · intro _ _ heq
    exact absurd heq hbackslash

/-- **No bracket in an escaped text ends it.** -/
theorem cutAtBracket?_flatMap_escapeChar (chars rest : List Char) :
    cutAtBracket? (chars.flatMap escapeChar ++ ']' :: rest) =
      some (chars.flatMap escapeChar, rest) := by
  induction chars with
  | nil => rfl
  | cons c others ih =>
    rw [List.flatMap_cons, List.append_assoc]
    rcases escapeChar_cases c with ⟨-, hc⟩ | ⟨-, -, hc⟩ | ⟨-, hactive, hc⟩
    · rw [hc, List.nil_append, List.nil_append, ih]
    · rw [hc, List.cons_append, List.singleton_append, cutAtBracket?, ih]
      rfl
    · have hbracket : c ≠ ']' := by
        rintro rfl
        exact hactive (by decide)
      rw [hc, List.singleton_append,
        cutAtBracket?_cons hbracket (ne_backslash_of_not_mem_activeChars hactive), ih]
      rfl

end ShellCompletion.Script.Bash
