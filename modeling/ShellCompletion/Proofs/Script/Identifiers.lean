import ShellCompletion.Script.Identifier

/-!
# The characters of identifiers

Whatever the name of a program is, the fragment that is made from it has only letters, digits and,
for Bash, underscores in it. So a fragment never ends a word, a line or a comment of a script.
-/

namespace ShellCompletion.Script

/-- Letters and digits are among the first 128 characters. -/
theorem toNat_lt_of_isAlphanum {c : Char} (h : c.isAlphanum = true) : c.toNat < 128 := by
  change ((decide (65 ≤ c.val ∧ c.val ≤ 90) || decide (97 ≤ c.val) && decide (c.val ≤ 122)) ||
    decide (48 ≤ c.val) && decide (c.val ≤ 57)) = true at h
  simp only [Bool.or_eq_true, Bool.and_eq_true, decide_eq_true_eq, UInt32.le_iff_toNat_le] at h
  change ((65 ≤ c.toNat ∧ c.toNat ≤ 90) ∨ (97 ≤ c.toNat ∧ c.toNat ≤ 122)) ∨
    (48 ≤ c.toNat ∧ c.toNat ≤ 57) at h
  omega

/-- The capital of a letter or digit is one as well, and no small letter; only small letters have
another character for their capital. -/
theorem toUpper_spec {c : Char} (h : c.isAlphanum = true) :
    c.toUpper.isAlphanum = true ∧ c.toUpper.isLower = false ∧
      (c.isLower = false → c.toUpper = c) := by
  have hall : ∀ n < 128, (Char.ofNat n).isAlphanum = true →
      (Char.ofNat n).toUpper.isAlphanum = true ∧ (Char.ofNat n).toUpper.isLower = false ∧
        ((Char.ofNat n).isLower = false → (Char.ofNat n).toUpper = Char.ofNat n) := by
    decide
  have hchar := hall c.toNat (toNat_lt_of_isAlphanum h)
  rw [Char.ofNat_toNat] at hchar
  exact hchar h

/-- Only letters and digits are left of a name for PowerShell. -/
theorem isAlphanum_of_mem_capitalisedRuns {fresh : Bool} {cs : List Char} {c : Char}
    (h : c ∈ capitalisedRuns fresh cs) : c.isAlphanum = true := by
  induction cs generalizing fresh with
  | nil => exact absurd h List.not_mem_nil
  | cons d rest ih =>
    rw [capitalisedRuns] at h
    split at h
    next hd =>
      rcases List.mem_cons.mp h with rfl | hrest
      · cases fresh with
        | false => exact hd
        | true => exact (toUpper_spec hd).1
      · exact ih hrest
    next => exact ih h

/-- The fragment for PowerShell has only letters and digits in it. -/
theorem isAlphanum_of_mem_powerShellName {program : String} {c : Char}
    (h : c ∈ (powerShellName program).toList) : c.isAlphanum = true := by
  rw [powerShellName] at h
  split at h
  · exact List.all_eq_true.mp (by decide) c h
  next cs =>
    rw [String.toList_ofList] at h
    exact isAlphanum_of_mem_capitalisedRuns h

/-- The fragment for Bash has only characters of identifiers in it. -/
theorem isIdentifierChar_of_mem_bashIdentifier {program : String} {c : Char}
    (h : c ∈ (bashIdentifier program).toList) : isIdentifierChar c = true := by
  rw [bashIdentifier] at h
  split at h
  · exact List.all_eq_true.mp (by decide) c h
  next cs =>
    rw [String.toList_ofList] at h
    obtain ⟨d, -, hc⟩ := List.mem_map.mp h
    rw [← hc]
    split
    next hd => exact hd
    next => decide

/-! ### Texts of which identifiers are made -/

/-- Every character of the text may stand in an identifier. -/
def isName (text : String) : Bool :=
  text.toList.all isIdentifierChar

/-- Two names make a name when they are put together. -/
theorem isName_append {a b : String} (ha : isName a = true) (hb : isName b = true) :
    isName (a ++ b) = true := by
  rw [isName, String.toList_append, List.all_append, Bool.and_eq_true]
  exact ⟨ha, hb⟩

/-- The fragment for Bash is a name. -/
theorem isName_bashIdentifier (program : String) : isName (bashIdentifier program) = true :=
  List.all_eq_true.mpr fun _ => isIdentifierChar_of_mem_bashIdentifier

/-- Numbers are made of digits. -/
theorem isName_toString (n : Nat) : isName (toString n) = true := by
  apply List.all_eq_true.mpr
  intro c hc
  rw [Nat.toString_eq_ofList_toDigits, String.toList_ofList] at hc
  have hdigit : c.isDigit = true := Nat.isDigit_of_mem_toDigits (by decide) (by decide) hc
  simp [isIdentifierChar, Char.isAlphanum, hdigit]

/-- A name lacks every character that identifiers do not have. -/
theorem not_mem_of_isName {c : Char} {text : String} (h : isName text = true)
    (hc : isIdentifierChar c = false) : c ∉ text.toList := by
  intro hmem
  exact absurd (List.all_eq_true.mp h c hmem) (by rw [hc]; decide)

/-- The fragment for Bash lacks every character that identifiers do not have. -/
theorem not_mem_bashIdentifier {c : Char} (h : isIdentifierChar c = false) (program : String) :
    c ∉ (bashIdentifier program).toList :=
  not_mem_of_isName (isName_bashIdentifier program) h

end ShellCompletion.Script
