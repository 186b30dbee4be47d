import ShellCompletion.Proofs.Script.Bash.Quoting
import ShellCompletion.Proofs.Script.Identifiers
import Mathlib.Data.List.Basic

/-!
# Where Bash parts a text

A newline ends a line and a blank ends a word only if no backslash stands before it. What is written
with backslashes passes such a separator by: it is not parted, and it does not part what follows.

* **Parting** (`splitActive`): the parts between the separators that count.
* **Passing** (`Passes`): escaped texts, identifiers and numbers pass (`passes_escape`,
  `passes_of_plain`), and so does what is put together from them (`Passes.append`).

Main statement: `splitActive_intercalate`.
-/

namespace ShellCompletion.Script.Bash

/-- The parts of a text between the separators that have no backslash before them. -/
def splitActive (sep : Char) : List Char → List (List Char)
  | [] => [[]]
  | '\\' :: c :: rest => (splitActive sep rest).modifyHead fun part => '\\' :: c :: part
  | c :: rest =>
    if c = sep then [] :: splitActive sep rest
    else (splitActive sep rest).modifyHead fun part => c :: part

/-- No separator in the text counts, and none behind it is saved by it. -/
def Passes (sep : Char) (text : List Char) : Prop :=
  ∀ rest, splitActive sep (text ++ rest) = (splitActive sep rest).modifyHead (text ++ ·)

variable {sep : Char}

/-- The empty text has no separator in it that counts. -/
theorem passes_nil : Passes sep [] := by
  intro rest
  show splitActive sep rest = (splitActive sep rest).modifyHead id
  rw [List.modifyHead_id]
  rfl

/-- Two texts without a separator that counts can be joined. -/
theorem Passes.append {a b : List Char} (ha : Passes sep a) (hb : Passes sep b) :
    Passes sep (a ++ b) := by
  intro rest
  rw [List.append_assoc, ha, hb, List.modifyHead_modifyHead]
  congr 1
  funext part
  exact (List.append_assoc a b part).symm

/-- Any number of texts without a separator that counts can be joined. -/
theorem passes_flatten {texts : List (List Char)} (h : ∀ text ∈ texts, Passes sep text) :
    Passes sep texts.flatten := by
  induction texts with
  | nil => exact passes_nil
  | cons text texts ih =>
    rw [List.flatten_cons]
    exact (h text List.mem_cons_self).append (ih fun other hother =>
      h other (List.mem_cons_of_mem text hother))

/-- A character behind a backslash is saved, whatever it is. -/
theorem passes_saved (c : Char) : Passes sep ['\\', c] := by
  intro rest
  show splitActive sep ('\\' :: c :: rest) = _
  rw [splitActive]
  rfl

/-- A character that is neither a separator nor a backslash. -/
theorem passes_singleton {c : Char} (hsep : c ≠ sep) (hslash : c ≠ '\\') : Passes sep [c] := by
  intro rest
  show splitActive sep (c :: rest) = _
  rw [splitActive, if_neg hsep]
  · rfl
  · intro _ _ heq
    exact absurd heq hslash

/-- In a text without separators and backslashes no separator counts. -/
theorem passes_of_plain {text : List Char} (hsep : sep ∉ text) (hslash : '\\' ∉ text) :
    Passes sep text := by
  induction text with
  | nil => exact passes_nil
  | cons c text ih =>
    rw [List.mem_cons, not_or] at hsep hslash
    exact (passes_singleton (Ne.symm hsep.1) (Ne.symm hslash.1)).append (ih hsep.2 hslash.2)

/-- In a name no separator counts that is no character of names. -/
theorem passes_of_isName {text : String} (h : isName text = true)
    (hsep : isIdentifierChar sep = false) : Passes sep text.toList :=
  passes_of_plain (not_mem_of_isName h hsep) (not_mem_of_isName h (by decide))

/-- An active separator is saved wherever it stands in an escaped text. -/
theorem passes_escape (hsep : sep ∈ activeChars) (text : String) :
    Passes sep (escape text).toList := by
  rw [toList_escape, List.flatMap_def]
  apply passes_flatten
  intro written hwritten
  obtain ⟨c, -, rfl⟩ := List.mem_map.mp hwritten
  rcases escapeChar_cases c with ⟨-, hc⟩ | ⟨-, -, hc⟩ | ⟨-, hactive, hc⟩
  · exact hc ▸ passes_nil
  · exact hc ▸ passes_saved c
  · have hne : c ≠ sep := fun heq => hactive (heq ▸ hsep)
    exact hc ▸ passes_singleton hne (ne_backslash_of_not_mem_activeChars hactive)

/-- In a text that is written as a word no separator counts, whatever the text is. -/
theorem passes_word (hsep : sep ∈ activeChars) (hquote : sep ≠ '\'') (text : String) :
    Passes sep (word text).toList := by
  unfold word
  split
  · have hplain : Passes sep ['\''] := passes_singleton hquote.symm (by decide)
    exact hplain.append hplain
  · exact passes_escape hsep text

/-- A list of words passes all but the blanks between them. -/
theorem passes_words (hsep : sep ∈ activeChars) (hquote : sep ≠ '\'') (hblank : sep ≠ ' ')
    (texts : List String) : Passes sep (words texts).toList := by
  have hjoint : Passes sep [' '] := passes_singleton hblank.symm (by decide)
  rw [words, String.toList_intercalate, List.map_map]
  induction texts with
  | nil => exact passes_nil
  | cons text texts ih =>
    have hword := passes_word hsep hquote text
    cases texts with
    | nil =>
      rw [List.map_singleton]
      exact List.intercalate_singleton ▸ hword
    | cons next texts =>
      exact List.intercalate_cons_cons ▸ (hword.append hjoint).append ih

/-- A separator ends a part that passes. -/
theorem splitActive_append_cons {text : List Char} (h : Passes sep text) (hslash : sep ≠ '\\')
    (rest : List Char) : splitActive sep (text ++ sep :: rest) = text :: splitActive sep rest := by
  have hsep : splitActive sep (sep :: rest) = [] :: splitActive sep rest := by
    rw [splitActive, if_pos rfl]
    intro _ _ heq
    exact absurd heq hslash
  rw [h, hsep, List.modifyHead_cons, List.append_nil]

/-- A text without a separator that counts is not split. -/
theorem splitActive_of_passes {text : List Char} (h : Passes sep text) :
    splitActive sep text = [text] := by
  have hend := h []
  rwa [List.append_nil, splitActive, List.modifyHead_cons, List.append_nil] at hend

/-- **What is joined with separators is parted at them**, if the parts pass. -/
theorem splitActive_intercalate {texts : List (List Char)} (hslash : sep ≠ '\\')
    (h : ∀ text ∈ texts, Passes sep text) (hne : texts ≠ []) :
    splitActive sep ([sep].intercalate texts) = texts := by
  induction texts with
  | nil => exact absurd rfl hne
  | cons text texts ih =>
    have htext := h text List.mem_cons_self
    cases texts with
    | nil =>
      rw [List.intercalate_singleton]
      exact splitActive_of_passes htext
    | cons next texts =>
      rw [List.intercalate_cons_cons, List.append_assoc, List.singleton_append,
        splitActive_append_cons htext hslash, ih (fun other hother =>
          h other (List.mem_cons_of_mem text hother)) (List.cons_ne_nil next texts)]

end ShellCompletion.Script.Bash
