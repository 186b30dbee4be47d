import Mathlib.Data.List.Infix
import ShellCompletion.Text.Lowercase

/-!
# Lowercasing the beginning of a text

Lowercasing goes character by character, except that a capital sigma looks at its surroundings: it
takes its final form at the end of a word. So the lowercase form of a beginning need not be a
beginning of the lowercase form. It is one unless the beginning breaks off behind a sigma, where it
seems that the word ends, and the rest goes on with the word (`SigmaTurns`).

* **A text between two others** (`lowercaseBetween`): what lowercasing makes of a part of a text,
  and that the text behind the part decides about nothing but the last sigma of the part
  (`lowercaseBetween_eq_iff`).

Main statement: `lowercaseAfter_prefix_iff`.
-/

namespace ShellCompletion.Text

/-! ### A text between two others -/

/-- The lowercase form of a character between `before` (nearest first) and `after`. -/
def lowerBetween (before : List Char) (c : Char) (after : List Char) : List Char :=
  if c = 'Σ' then [if endsWord before after then 'ς' else 'σ'] else lowerChar c

/-- The lowercase form of `cs` between `before` (nearest first) and `after`. -/
def lowercaseBetween (before : List Char) : List Char → List Char → List Char
  | [], _ => []
  | c :: rest, after =>
    lowerBetween before c (rest ++ after) ++ lowercaseBetween (c :: before) rest after

/-- A text in two parts is put into lower case part by part, the first one with a look at what
follows. -/
theorem lowercaseAfter_append (before cs after : List Char) :
    lowercaseAfter before (cs ++ after) =
      lowercaseBetween before cs after ++ lowercaseAfter (cs.reverse ++ before) after := by
  induction cs generalizing before with
  | nil => rfl
  | cons c rest ih =>
    rw [List.cons_append, lowercaseAfter, lowercaseBetween, ih, List.reverse_cons,
      List.append_assoc, List.append_assoc]
    rfl

/-- With nothing behind it, a text is the last part. -/
theorem lowercaseAfter_eq_between (before cs : List Char) :
    lowercaseAfter before cs = lowercaseBetween before cs [] := by
  have happend := lowercaseAfter_append before cs []
  rwa [List.append_nil, lowercaseAfter, List.append_nil] at happend

/-- Both forms of a small sigma are one character. -/
theorem length_lowerBetween (before after after' : List Char) (c : Char) :
    (lowerBetween before c after).length = (lowerBetween before c after').length := by
  unfold lowerBetween
  split
  · rfl
  · rfl

/-- What follows does not change how long a text in lower case is. -/
theorem length_lowercaseBetween (before cs after after' : List Char) :
    (lowercaseBetween before cs after).length = (lowercaseBetween before cs after').length := by
  induction cs generalizing before with
  | nil => rfl
  | cons c rest ih =>
    rw [lowercaseBetween, lowercaseBetween, List.length_append, List.length_append, ih,
      length_lowerBetween before (rest ++ after) (rest ++ after')]

/-- All characters but one have one lowercase character. -/
theorem length_lowerChar {c : Char} (h : c ≠ 'İ') : (lowerChar c).length = 1 := by
  rw [lowerChar, if_neg h]
  split
  · rfl
  · split
    · rfl
    · rfl

/-- Without a dotted capital I, no text gets longer. -/
theorem length_lowercaseAfter {cs : List Char} (h : 'İ' ∉ cs) (before : List Char) :
    (lowercaseAfter before cs).length = cs.length := by
  induction cs generalizing before with
  | nil => rfl
  | cons c rest ih =>
    obtain ⟨hc, hrest⟩ := not_or.mp (List.mem_cons.not.mp h)
    have hone : (lowerBetween before c rest).length = 1 := by
      unfold lowerBetween
      split
      · rfl
      · exact length_lowerChar (Ne.symm hc)
    have hsplit : lowercaseAfter before (c :: rest) =
        lowerBetween before c rest ++ lowercaseAfter (c :: before) rest := rfl
    rw [hsplit, List.length_append, hone, ih hrest, List.length_cons, Nat.add_comm]

/-! ### The last sigma -/

/-- Behind nothing but case-ignorable marks, what follows them is what counts. -/
theorem meetsCased_append (cs after : List Char) :
    meetsCased (cs ++ after) =
      if cs.all isCaseIgnorable then meetsCased after else meetsCased cs := by
  induction cs with
  | nil => rfl
  | cons c rest ih =>
    unfold meetsCased at ih ⊢
    by_cases hc : isCaseIgnorable c = true
    · simpa [hc] using ih
    · simp [hc]

/-- The text breaks off behind a capital sigma that follows a letter, with nothing but
case-ignorable marks in between, and `after` goes on with a letter. So the sigma ends a word only as
long as `after` does not follow. -/
def SigmaTurns (before cs after : List Char) : Prop :=
  ∃ front marks, cs = front ++ 'Σ' :: marks ∧ marks.all isCaseIgnorable = true ∧
    meetsCased (front.reverse ++ before) = true ∧ meetsCased after = true

/-- The empty text breaks off behind no sigma. -/
theorem not_sigmaTurns_nil (before after : List Char) : ¬SigmaTurns before [] after := by
  rintro ⟨front, marks, hcs, -⟩
  exact List.append_ne_nil_of_right_ne_nil front (List.cons_ne_nil _ _) hcs.symm

/-- The sigma is the first character, or one of those behind it. -/
theorem sigmaTurns_cons_iff {before rest after : List Char} {c : Char} :
    SigmaTurns before (c :: rest) after ↔
      (c = 'Σ' ∧ rest.all isCaseIgnorable = true ∧ meetsCased before = true ∧
        meetsCased after = true) ∨ SigmaTurns (c :: before) rest after := by
  constructor
  · rintro ⟨front, marks, hcs, hmarks, hbefore, hafter⟩
    cases front with
    | nil =>
      obtain ⟨rfl, rfl⟩ := List.cons.inj hcs
      exact .inl ⟨rfl, hmarks, hbefore, hafter⟩
    | cons d front =>
      obtain ⟨rfl, rfl⟩ := List.cons.inj hcs
      rw [List.reverse_cons, List.append_assoc, List.singleton_append] at hbefore
      exact .inr ⟨front, marks, rfl, hmarks, hbefore, hafter⟩
  · rintro (⟨rfl, hmarks, hbefore, hafter⟩ | ⟨front, marks, rfl, hmarks, hbefore, hafter⟩)
    · exact ⟨[], rest, rfl, hmarks, hbefore, hafter⟩
    · refine ⟨c :: front, marks, rfl, hmarks, ?_, hafter⟩
      rwa [List.reverse_cons, List.append_assoc, List.singleton_append]

/-- The one case in which it makes a difference to a character that `after` follows. -/
theorem lowerBetween_eq_iff {before rest after : List Char} {c : Char} :
    lowerBetween before c rest = lowerBetween before c (rest ++ after) ↔
      ¬(c = 'Σ' ∧ rest.all isCaseIgnorable = true ∧ meetsCased before = true ∧
        meetsCased after = true) := by
  have hnothing : rest.all isCaseIgnorable = true → meetsCased rest = false := by
    intro hmarks
    have happend := meetsCased_append rest []
    rwa [List.append_nil, if_pos hmarks] at happend
  unfold lowerBetween endsWord
  rw [meetsCased_append]
  by_cases hc : c = 'Σ'
  · by_cases hmarks : rest.all isCaseIgnorable = true
    · simp only [hc, hmarks, hnothing hmarks, if_true]
      cases meetsCased before <;> cases meetsCased after <;> decide
    · simp [hc, hmarks]
  · simp [hc]

/-- What follows a text makes no difference to its lowercase form unless its last sigma turns. -/
theorem lowercaseBetween_eq_iff {before cs after : List Char} :
    lowercaseBetween before cs [] = lowercaseBetween before cs after ↔
      ¬SigmaTurns before cs after := by
  induction cs generalizing before with
  | nil => exact iff_of_true rfl (not_sigmaTurns_nil before after)
  | cons c rest ih =>
    rw [lowercaseBetween, lowercaseBetween, List.append_nil, sigmaTurns_cons_iff, not_or, ← ih,
      ← lowerBetween_eq_iff]
    constructor
    · exact fun h => List.append_inj h (length_lowerBetween _ _ _ _)
    · rintro ⟨hc, hrest⟩
      rw [hc, hrest]

/-- **The lowercase form of a beginning is a beginning of the lowercase form** unless the last sigma
of the beginning turns. -/
theorem lowercaseAfter_prefix_iff {before cs after : List Char} :
    lowercaseAfter before cs <+: lowercaseAfter before (cs ++ after) ↔
      ¬SigmaTurns before cs after := by
  rw [← lowercaseBetween_eq_iff, lowercaseAfter_append, lowercaseAfter_eq_between before cs]
  constructor
  · intro hbegins
    have hlength := length_lowercaseBetween before cs [] after
    have hshort := List.prefix_of_prefix_length_le hbegins (List.prefix_append _ _) hlength.le
    exact hshort.eq_of_length hlength
  · intro heq
    rw [heq]
    exact List.prefix_append _ _

end ShellCompletion.Text
