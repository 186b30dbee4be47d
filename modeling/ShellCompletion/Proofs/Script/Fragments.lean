import ShellCompletion.Proofs.Script.Identifiers

/-!
# The fragments made from a program's name

Both fragments are safe to put into a script, whatever the name of the program is, and making one
from a fragment changes nothing.

* **Bash** (`bashIdentifier_eq_self_iff`): the texts that are left as they are, and so all fragments,
  are those that are not empty and have only letters, digits and underscores in them.
* **PowerShell** (`powerShellName_eq_self_iff`): those that have only letters and digits in them and
  begin with no small letter. A name becomes its runs of letters and digits, each with a capital
  (`capitalisedRuns_eq_flatMap`).
* **One after the other** (`powerShellName_bashIdentifier`): an underscore ends a run just like the
  character that it stands for.

Main statement: `fragments_consistent`.
-/

namespace ShellCompletion.Script

/-! ### Bash -/

/-- A text that Bash takes for a part of an identifier. -/
structure IsBashFragment (text : String) : Prop where
  ne_empty : text ≠ ""
  /-- Only `A-Z`, `a-z`, `0-9` and `_` occur. -/
  identifier : ∀ c ∈ text.toList, c.isAlphanum = true ∨ c = '_'

/-- The characters of identifiers are letters, digits and the underscore. -/
theorem isIdentifierChar_iff {c : Char} :
    isIdentifierChar c = true ↔ c.isAlphanum = true ∨ c = '_' := by
  simp [isIdentifierChar]

/-- The character that stands for another one in an identifier. -/
def identifierChar (c : Char) : Char :=
  if isIdentifierChar c then c else '_'

/-- The fragment for Bash is made character by character. -/
theorem bashIdentifier_of_ne_empty {program : String} (h : program ≠ "") :
    bashIdentifier program = String.ofList (program.toList.map identifierChar) := by
  rw [bashIdentifier]
  split
  next hnil => exact absurd (String.toList_eq_nil_iff.mp hnil) h
  next => rfl

/-- The fragment for Bash is as long as the name. -/
theorem length_bashIdentifier {program : String} (h : program ≠ "") :
    (bashIdentifier program).length = program.length := by
  rw [bashIdentifier_of_ne_empty h, String.length_ofList, List.length_map, String.length_toList]

/-- The fragment for Bash is one that Bash takes for a part of a name. -/
theorem isBashFragment_bashIdentifier (program : String) :
    IsBashFragment (bashIdentifier program) where
  ne_empty := by
    by_cases h : program = ""
    · subst h
      decide
    · rw [bashIdentifier_of_ne_empty h]
      simpa using h
  identifier c hc := isIdentifierChar_iff.mp (isIdentifierChar_of_mem_bashIdentifier hc)

/-- The fragments for Bash are the texts that are left as they are. -/
theorem bashIdentifier_eq_self_iff {program : String} :
    bashIdentifier program = program ↔ IsBashFragment program := by
  constructor
  · intro h
    rw [← h]
    exact isBashFragment_bashIdentifier program
  · intro h
    have hchars : ∀ c ∈ program.toList, identifierChar c = c := by
      intro c hc
      rw [identifierChar, if_pos (isIdentifierChar_iff.mpr (h.identifier c hc))]
    rw [bashIdentifier_of_ne_empty h.ne_empty, List.map_congr_left hchars, List.map_id',
      String.ofList_toList]

/-! ### PowerShell -/

/-- A text that PowerShell takes for a part of a name, written with a capital. -/
structure IsPowerShellFragment (text : String) : Prop where
  ne_empty : text ≠ ""
  /-- Only `A-Z`, `a-z` and `0-9` occur. -/
  alphanum : ∀ c ∈ text.toList, c.isAlphanum = true
  /-- A letter at the beginning is a capital. -/
  capital : ∀ c ∈ text.toList.head?, c.isLower = false

/-- A run of letters and digits with a capital. -/
def capitalised : List Char → List Char
  | [] => []
  | c :: rest => c.toUpper :: rest

/-- A name becomes its runs of letters and digits, which lie between its other characters, each with
a capital. -/
theorem capitalisedRuns_eq_flatMap (cs : List Char) :
    capitalisedRuns true cs = (cs.splitOnP fun c => !c.isAlphanum).flatMap capitalised := by
  -- inside a run, the letters up to its end stay as they are
  have hruns : ∃ run runs, cs.splitOnP (fun c => !c.isAlphanum) = run :: runs ∧
      capitalisedRuns true cs = capitalised run ++ runs.flatMap capitalised ∧
      capitalisedRuns false cs = run ++ runs.flatMap capitalised := by
    induction cs with
    | nil => exact ⟨[], [], by simp [capitalisedRuns, capitalised]⟩
    | cons c rest ih =>
      obtain ⟨run, runs, hsplit, hfresh, hgoing⟩ := ih
      rw [List.splitOnP_cons_eq_if_modifyHead, hsplit]
      by_cases hc : c.isAlphanum = true
      · refine ⟨c :: run, runs, ?_⟩
        simp [capitalisedRuns, capitalised, hc, hgoing]
      · refine ⟨[], run :: runs, ?_⟩
        simp [capitalisedRuns, capitalised, hc, hfresh]
  obtain ⟨run, runs, hsplit, hfresh, -⟩ := hruns
  rw [hsplit, hfresh, List.flatMap_cons]

/-- The first letter of the fragment for PowerShell is a capital. -/
theorem isLower_head?_capitalisedRuns {cs : List Char} {c : Char}
    (h : c ∈ (capitalisedRuns true cs).head?) : c.isLower = false := by
  induction cs with
  | nil => simp [capitalisedRuns] at h
  | cons d rest ih =>
    rw [capitalisedRuns] at h
    split at h
    next hd =>
      obtain rfl : d.toUpper = c := by simpa using h
      exact (toUpper_spec hd).2.1
    next => exact ih h

/-- Inside a run nothing changes. -/
theorem capitalisedRuns_false_eq_self {cs : List Char} (h : ∀ c ∈ cs, c.isAlphanum = true) :
    capitalisedRuns false cs = cs := by
  induction cs with
  | nil => rfl
  | cons c rest ih =>
    rw [List.forall_mem_cons] at h
    simp [capitalisedRuns, h.1, ih h.2]

/-- A single run that has its capital is left as it is. -/
theorem capitalisedRuns_true_eq_self {cs : List Char} (h : ∀ c ∈ cs, c.isAlphanum = true)
    (hcapital : ∀ c ∈ cs.head?, c.isLower = false) : capitalisedRuns true cs = cs := by
  cases cs with
  | nil => rfl
  | cons c rest =>
    rw [List.forall_mem_cons] at h
    have hupper : c.toUpper = c := (toUpper_spec h.1).2.2 (hcapital c rfl)
    simp [capitalisedRuns, h.1, hupper, capitalisedRuns_false_eq_self h.2]

/-- The fragment for PowerShell is one that PowerShell takes for a part of a name. -/
theorem isPowerShellFragment_powerShellName (program : String) :
    IsPowerShellFragment (powerShellName program) where
  ne_empty := by
    unfold powerShellName
    split
    · decide
    next hne => simpa using hne
  alphanum c hc := isAlphanum_of_mem_powerShellName hc
  capital c hc := by
    unfold powerShellName at hc
    split at hc
    · obtain rfl : 'A' = c := by simpa using hc
      decide
    · rw [String.toList_ofList] at hc
      exact isLower_head?_capitalisedRuns hc

/-- The fragments for PowerShell are the texts that are left as they are. -/
theorem powerShellName_eq_self_iff {program : String} :
    powerShellName program = program ↔ IsPowerShellFragment program := by
  constructor
  · intro h
    rw [← h]
    exact isPowerShellFragment_powerShellName program
  · intro h
    have hruns := capitalisedRuns_true_eq_self h.alphanum h.capital
    unfold powerShellName
    rw [hruns]
    split
    next hnil => exact absurd (String.toList_eq_nil_iff.mp hnil) h.ne_empty
    next => exact String.ofList_toList

/-! ### One after the other -/

/-- The runs are the same if only characters between them are replaced. -/
theorem capitalisedRuns_map {f : Char → Char} (hkeep : ∀ c, c.isAlphanum = true → f c = c)
    (hpart : ∀ c, c.isAlphanum = false → (f c).isAlphanum = false) (fresh : Bool)
    (cs : List Char) : capitalisedRuns fresh (cs.map f) = capitalisedRuns fresh cs := by
  induction cs generalizing fresh with
  | nil => rfl
  | cons c rest ih =>
    cases hc : c.isAlphanum with
    | true => simp [capitalisedRuns, hkeep c hc, hc, ih]
    | false => simp [capitalisedRuns, hpart c hc, hc, ih]

/-- Letters and digits are kept for Bash. -/
theorem identifierChar_of_isAlphanum {c : Char} (h : c.isAlphanum = true) :
    identifierChar c = c := by
  simp [identifierChar, isIdentifierChar, h]

/-- Everything but letters and digits becomes an underscore for Bash. -/
theorem identifierChar_of_not_isAlphanum {c : Char} (h : c.isAlphanum = false) :
    identifierChar c = '_' := by
  by_cases hc : c = '_' <;> simp [identifierChar, isIdentifierChar, h, hc]

/-- Making the fragment for Bash first does not change the one for PowerShell. -/
theorem powerShellName_bashIdentifier (program : String) :
    powerShellName (bashIdentifier program) = powerShellName program := by
  by_cases h : program = ""
  · subst h
    decide
  · have hruns : capitalisedRuns true (program.toList.map identifierChar) =
        capitalisedRuns true program.toList := by
      apply capitalisedRuns_map
      · intro c hc
        exact identifierChar_of_isAlphanum hc
      · intro c hc
        rw [identifierChar_of_not_isAlphanum hc]
        decide
    rw [bashIdentifier_of_ne_empty h, powerShellName, String.toList_ofList, hruns]
    rfl

/-! ### Both fragments -/

/-- **The fragments are safe and agree.** The fragment for Bash is not empty, has only letters,
digits and underscores in it, and as many characters as the program's name unless this is empty. The
one for PowerShell is not empty and has only letters and digits in it. Either is left as it is when
a fragment is made from it, as is every text of its form. And it does not matter whether the fragment
for PowerShell is made from the name or from the fragment for Bash. -/
theorem fragments_consistent (program : String) :
    (IsBashFragment (bashIdentifier program) ∧
      (program ≠ "" → (bashIdentifier program).length = program.length) ∧
      bashIdentifier (bashIdentifier program) = bashIdentifier program ∧
      (bashIdentifier program = program ↔ IsBashFragment program)) ∧
    (IsPowerShellFragment (powerShellName program) ∧
      powerShellName (powerShellName program) = powerShellName program ∧
      (powerShellName program = program ↔ IsPowerShellFragment program)) ∧
    powerShellName (bashIdentifier program) = powerShellName program := by
  have hbash := isBashFragment_bashIdentifier program
  have hpower := isPowerShellFragment_powerShellName program
  refine ⟨⟨hbash, length_bashIdentifier, ?_, bashIdentifier_eq_self_iff⟩, ⟨hpower, ?_, ?_⟩, ?_⟩
  · exact bashIdentifier_eq_self_iff.mpr hbash
  · exact powerShellName_eq_self_iff.mpr hpower
  · exact powerShellName_eq_self_iff
  · exact powerShellName_bashIdentifier program

/-- A name with three characters in a row that no identifier can hold, one of them no ASCII. -/
theorem fragments_consistent_mixed :
    "git-é.exe" ≠ "" ∧ bashIdentifier "git-é.exe" = "git___exe" ∧
      (bashIdentifier "git-é.exe").length = "git-é.exe".length ∧
      powerShellName (bashIdentifier "git-é.exe") = "GitExe" := by
  obtain ⟨⟨-, hlength, -⟩, -, hname⟩ := fragments_consistent "git-é.exe"
  have hne : "git-é.exe" ≠ "" := by decide
  refine ⟨hne, by decide, hlength hne, ?_⟩
  rw [hname]
  decide

end ShellCompletion.Script
