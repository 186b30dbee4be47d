import ShellCompletion.Proofs.Script.Bash.Arithmetic
import ShellCompletion.Proofs.Script.Identifiers
import ShellCompletion.Proofs.Script.Template
import ShellCompletion.Script.Generate
import ShellCompletion.Text.Search

/-!
# The tunables in a Bash script

A script carries the numbers that steer the matcher, so that it ranks as the library does. The
script assigns them to variables, and Bash reads them when it computes. The check of the tunables
lets every number of 64 bits pass where it sets no bound of its own, but Bash takes the upper half
of them for negative numbers.

* **Reading** (`Setting.read?`): the text that a script assigns to a variable, read as a number.
* **The lines** (`assigned?_script`): the script assigns to each variable what it should.

Main statement: `settings_agree_below`, for every tree and all tunables that pass the check. That
tunables pass the check that the script does not keep is `negative_setting`.
-/

namespace ShellCompletion.Script.Bash

/-! ### Reading -/

/-- The name and the text of a declaration. -/
def declaration? (line : List Char) : Option (List Char × List Char) :=
  if "declare -g ".toList.isPrefixOf line then Text.cutAtFirst? '=' (line.drop 11) else none

/-- The text that a line assigns to a variable. -/
def textFor? (variableName : String) (line : List Char) : Option (List Char) := do
  let (name, text) ← declaration? line
  if name = variableName.toList then some text else none

/-- The text that a script assigns to a variable first. -/
def assigned? (variableName : String) (script : String) : Option (List Char) :=
  (script.toList.splitOn '\n').findSome? (textFor? variableName)

/-- A tunable that is a number. -/
inductive Setting where
  | maxCandidates
  | minPatternLength
  | scoreThreshold
  | maxResults
  | cacheMaxSize
  deriving DecidableEq, Repr

/-- The variables of a script that have to do with the matcher. -/
def fuzzyVariable (program word : String) : String :=
  "_" ++ bashIdentifier program ++ "_FUZZY_" ++ word

namespace Setting

/-- The number that the matcher works with. -/
def value (tunables : Tunables) : Setting → Nat
  | maxCandidates => tunables.maxCandidates.toNat
  | minPatternLength => tunables.minPatternLength.toNat
  | scoreThreshold => tunables.scoreThreshold.toNat
  | maxResults => tunables.maxResults.toNat
  | cacheMaxSize => tunables.cacheMaxSize.toNat

/-- What a script calls it. -/
def word : Setting → String
  | maxCandidates => "MAX_CANDIDATES"
  | minPatternLength => "MIN_PATTERN_LENGTH"
  | scoreThreshold => "SCORE_THRESHOLD"
  | maxResults => "MAX_RESULTS"
  | cacheMaxSize => "CACHE_MAX_SIZE"

/-- The number that Bash reads in the script of a program. -/
def read? (program script : String) (setting : Setting) : Option Int64 :=
  (assigned? (fuzzyVariable program setting.word) script).bind number?

/-- Every setting fits into 64 bits. -/
theorem value_lt (tunables : Tunables) (setting : Setting) : setting.value tunables < 2 ^ 64 := by
  cases setting with
  | maxCandidates => exact tunables.maxCandidates.toNat_lt
  | minPatternLength => exact tunables.minPatternLength.toNat_lt
  | scoreThreshold => exact Nat.lt_trans tunables.scoreThreshold.toNat_lt (by decide)
  | maxResults => exact tunables.maxResults.toNat_lt
  | cacheMaxSize => exact tunables.cacheMaxSize.toNat_lt

end Setting

/-! ### The lines -/

/-- A line that declares a variable of the matcher. -/
def fuzzyLine (program : String) (entry : String × String) : String :=
  "declare -g " ++ fuzzyVariable program entry.1 ++ "=" ++ entry.2

/-- The variables of the matcher with their texts. -/
def fuzzyEntries (tunables : Tunables) : List (String × String) :=
  [("ENABLED", if tunables.fuzzyEnabled then "1" else "0"),
    ("MAX_CANDIDATES", toString tunables.maxCandidates.toNat),
    ("MIN_PATTERN_LENGTH", toString tunables.minPatternLength.toNat),
    ("SCORE_THRESHOLD", toString tunables.scoreThreshold.toNat),
    ("MAX_RESULTS", toString tunables.maxResults.toNat),
    ("CACHE_MAX_SIZE", toString tunables.cacheMaxSize.toNat)]

/-- The entry of a setting has its value in decimal digits. -/
theorem lookup_fuzzyEntries (tunables : Tunables) (setting : Setting) :
    (fuzzyEntries tunables).lookup setting.word = some (toString (setting.value tunables)) := by
  cases setting <;> rfl

/-- Different settings have different variables. -/
theorem fuzzyVariable_inj {program a b : String} :
    fuzzyVariable program a = fuzzyVariable program b ↔ a = b := by
  simp [fuzzyVariable, ← String.toList_inj]

/-- A declaration is taken apart at its first equals sign. -/
theorem declaration?_append {name : List Char} (h : '=' ∉ name) (text : List Char) :
    declaration? ("declare -g ".toList ++ (name ++ '=' :: text)) = some (name, text) := by
  have hstart : "declare -g ".toList.isPrefixOf ("declare -g ".toList ++ (name ++ '=' :: text)) =
      true := List.isPrefixOf_iff_prefix.mpr (List.prefix_append _ _)
  have hdrop : ("declare -g ".toList ++ (name ++ '=' :: text)).drop 11 = name ++ '=' :: text :=
    List.drop_left' rfl
  rw [declaration?, if_pos hstart, hdrop, Text.cutAtFirst?_append h]

/-- The line of a setting gives a text for its own variable and for no other. -/
theorem textFor?_fuzzyLine {program word : String} {entry : String × String}
    (h : '=' ∉ entry.1.toList) :
    textFor? (fuzzyVariable program word) (fuzzyLine program entry).toList =
      if entry.1 = word then some entry.2.toList else none := by
  have hname : '=' ∉ (fuzzyVariable program entry.1).toList := by
    simp [fuzzyVariable, h, not_mem_bashIdentifier (by decide : isIdentifierChar '=' = false)]
  have hline : (fuzzyLine program entry).toList = "declare -g ".toList ++
      ((fuzzyVariable program entry.1).toList ++ '=' :: entry.2.toList) := by
    rw [fuzzyLine, String.toList_append, String.toList_append, String.toList_append,
      List.append_assoc, List.append_assoc]
    rfl
  rw [textFor?, hline, declaration?_append hname, Option.bind_eq_bind, Option.bind_some]
  simp only [String.toList_inj, fuzzyVariable_inj]

/-- Of lines that declare variables, the one counts that has the name. -/
theorem findSome?_fuzzyLine {program word text : String} {entries : List (String × String)}
    (hnames : ∀ entry ∈ entries, '=' ∉ entry.1.toList) (h : entries.lookup word = some text)
    (rest : List (List Char)) :
    ((entries.map fun entry => (fuzzyLine program entry).toList) ++ rest).findSome?
      (textFor? (fuzzyVariable program word)) = some text.toList := by
  induction entries with
  | nil => exact absurd h (by simp)
  | cons entry entries ih =>
    obtain ⟨name, value⟩ := entry
    rw [List.map_cons, List.cons_append, List.findSome?_cons,
      textFor?_fuzzyLine (hnames _ List.mem_cons_self)]
    rw [List.lookup_cons] at h
    by_cases hname : name = word
    · rw [if_pos hname]
      simp only [hname, beq_self_eq_true, Option.some.injEq] at h
      rw [h]
    · rw [if_neg hname]
      have hother : (word == name) = false := beq_eq_false_iff_ne.mpr (Ne.symm hname)
      rw [hother] at h
      exact ih (fun other hmem => hnames other (List.mem_cons_of_mem _ hmem)) h

/-- A line that declares nothing and has no line break in it. -/
def Quiet (line : String) : Prop :=
  '\n' ∉ line.toList ∧ line.toList.head? ≠ some 'd'

/-- A quiet line declares nothing. -/
theorem Quiet.declaration?_eq_none {line : String} (h : Quiet line) :
    declaration? line.toList = none := by
  refine if_neg fun hstart => h.2 ?_
  obtain ⟨rest, hline⟩ := List.isPrefixOf_iff_prefix.mp hstart
  rw [← hline]
  rfl

section Lines

variable (model : Model) (program : String) (tunables : Tunables)

/-- The lines before the declarations are comments, empty, or ask for the version of the shell. -/
theorem quiet_renderLine : ∀ line ∈ frame.take 9,
    Quiet (renderLine (slotValues model program tunables) line) := by
  have hcopied : ∀ {line : String}, cutAtMarks? line.toList = none → Quiet line →
      Quiet (renderLine (slotValues model program tunables) line) := by
    intro line hcut hquiet
    rwa [renderLine_of_none hcut]
  have hnamed : ∀ (front back : String), '@' ∉ front.toList → front.toList.head? = some '#' →
      cutAtMarks? back.toList = none → '\n' ∉ front.toList ++ back.toList →
        Quiet (renderLine (slotValues model program tunables)
          (front ++ "@@" ++ "IDENT" ++ "@@" ++ back)) := by
    intro front back hmarks hhash hback hlines
    have hname : filledIn (slotValues model program tunables) "IDENT" = bashIdentifier program := rfl
    have hnewline := not_mem_bashIdentifier (by decide : isIdentifierChar '\n' = false) program
    rw [List.mem_append, not_or] at hlines
    rw [renderLine_single_slot hmarks (by decide) hback, hname]
    constructor
    · simp [hlines, hnewline]
    · simp [hhash]
  refine List.forall_mem_cons.mpr
    ⟨hnamed "# bash completion for " "" (by decide) rfl rfl (by decide), ?_⟩
  refine List.forall_mem_cons.mpr ⟨hcopied rfl ⟨by decide, by decide⟩, ?_⟩
  refine List.forall_mem_cons.mpr ⟨hcopied rfl ⟨by decide, by decide⟩, ?_⟩
  refine List.forall_mem_cons.mpr ⟨hcopied rfl ⟨by decide, by decide⟩, ?_⟩
  refine List.forall_mem_cons.mpr ⟨hcopied rfl ⟨by decide, by decide⟩, ?_⟩
  refine List.forall_mem_cons.mpr
    ⟨hnamed "# Diagnostics: _" "_completion_debug [words...]" (by decide) rfl rfl (by decide), ?_⟩
  refine List.forall_mem_cons.mpr ⟨hcopied rfl ⟨by decide, by decide⟩, ?_⟩
  -- the line about the version is too long for the elaborator to look through
  refine List.forall_mem_cons.mpr
    ⟨hcopied (by decide +kernel) ⟨by decide +kernel, by decide +kernel⟩, ?_⟩
  exact List.forall_mem_cons.mpr ⟨hcopied rfl ⟨by decide, by decide⟩, List.forall_mem_nil _⟩

/-- The lines that declare the variables of the matcher. -/
theorem map_renderLine_declarations :
    ((frame.drop 9).take 6).map (renderLine (slotValues model program tunables)) =
      (fuzzyEntries tunables).map (fuzzyLine program) := by
  let slots : List (String × String) :=
    [("ENABLED", "FUZZY_ENABLED"), ("MAX_CANDIDATES", "MAX_CANDIDATES"),
      ("MIN_PATTERN_LENGTH", "MIN_PATTERN_LENGTH"), ("SCORE_THRESHOLD", "SCORE_THRESHOLD"),
      ("MAX_RESULTS", "MAX_RESULTS"), ("CACHE_MAX_SIZE", "CACHE_MAX_SIZE")]
  have hframe : (frame.drop 9).take 6 = slots.map fun slot =>
      "declare -g _" ++ "@@" ++ "IDENT" ++ "@@" ++
        ("_FUZZY_" ++ slot.1 ++ "=" ++ "@@" ++ slot.2 ++ "@@" ++ "") := rfl
  have hentries : fuzzyEntries tunables = slots.map fun slot =>
      (slot.1, filledIn (slotValues model program tunables) slot.2) := rfl
  have hslots : ∀ slot ∈ slots, '@' ∉ ("_FUZZY_" ++ slot.1 ++ "=").toList ∧
      isSlotName slot.2.toList = true := by decide
  have hname : filledIn (slotValues model program tunables) "IDENT" = bashIdentifier program := rfl
  have hfront : "declare -g _" = "declare -g " ++ "_" := rfl
  rw [hframe, hentries, List.map_map, List.map_map]
  refine List.map_congr_left fun slot hslot => ?_
  obtain ⟨hmarks, hvalid⟩ := hslots slot hslot
  rw [Function.comp_apply, renderLine_slot _ (by decide) (by decide),
    renderLine_single_slot hmarks hvalid rfl, hname, hfront, Function.comp_apply,
    fuzzyLine, fuzzyVariable]
  simp only [String.append_assoc, String.append_empty]

/-- Neither the names nor the texts break a line, and no name ends before its equals sign. -/
theorem fuzzyEntries_spec : ∀ entry ∈ fuzzyEntries tunables,
    '=' ∉ entry.1.toList ∧ '\n' ∉ (fuzzyLine program entry).toList := by
  have hnames : ∀ name ∈ (fuzzyEntries tunables).map Prod.fst,
      '=' ∉ name.toList ∧ '\n' ∉ name.toList := by
    have hlist : (fuzzyEntries tunables).map Prod.fst = ["ENABLED", "MAX_CANDIDATES",
      "MIN_PATTERN_LENGTH", "SCORE_THRESHOLD", "MAX_RESULTS", "CACHE_MAX_SIZE"] := rfl
    rw [hlist]
    decide
  have hnumber : ∀ n : Nat, '\n' ∉ (toString n).toList := by
    intro n hmem
    rw [Nat.toString_eq_ofList_toDigits, String.toList_ofList] at hmem
    exact absurd (Nat.isDigit_of_mem_toDigits (by decide) (by decide) hmem) (by decide)
  have hswitch : '\n' ∉ (if tunables.fuzzyEnabled then "1" else "0").toList := by
    cases tunables.fuzzyEnabled <;> decide
  have htexts : ∀ text ∈ (fuzzyEntries tunables).map Prod.snd, '\n' ∉ text.toList := by
    simp only [fuzzyEntries, List.map_cons, List.map_nil, List.forall_mem_cons]
    exact ⟨hswitch, hnumber _, hnumber _, hnumber _, hnumber _, hnumber _, List.forall_mem_nil _⟩
  intro entry hentry
  obtain ⟨hequals, hname⟩ := hnames entry.1 (List.mem_map_of_mem hentry)
  have htext := htexts entry.2 (List.mem_map_of_mem hentry)
  have hident := not_mem_bashIdentifier (by decide : isIdentifierChar '\n' = false) program
  refine ⟨hequals, ?_⟩
  simp [fuzzyLine, fuzzyVariable, hname, htext, hident]

/-- The first lines of a script. -/
theorem exists_splitOn_script :
    ∃ rest, (script model program tunables).toList.splitOn '\n' =
      ((frame.take 9).map (renderLine (slotValues model program tunables))).map String.toList ++
        ((fuzzyEntries tunables).map (fuzzyLine program)).map String.toList ++ rest := by
  have hparts : frame = frame.take 9 ++ (frame.drop 9).take 6 ++ frame.drop 15 := rfl
  have hbreaks : ∀ line ∈ (frame.take 9).map (renderLine (slotValues model program tunables)) ++
      (fuzzyEntries tunables).map (fuzzyLine program), '\n' ∉ line.toList := by
    intro line hline
    rcases List.mem_append.mp hline with hline | hline
    · obtain ⟨source, hsource, rfl⟩ := List.mem_map.mp hline
      exact (quiet_renderLine model program tunables source hsource).1
    · obtain ⟨entry, hentry, rfl⟩ := List.mem_map.mp hline
      exact (fuzzyEntries_spec program tunables entry hentry).2
  rw [script, template, renderTemplate_ofLines]
  conv =>
    enter [1, rest, 1]
    rw [hparts]
  rw [List.map_append, List.map_append, map_renderLine_declarations, ofLines_append,
    String.toList_append, splitOn_ofLines hbreaks, List.map_append]
  exact ⟨_, rfl⟩

/-- The script assigns to each variable what it should. -/
theorem assigned?_script (setting : Setting) :
    assigned? (fuzzyVariable program setting.word) (script model program tunables) =
      some (toString (setting.value tunables)).toList := by
  obtain ⟨rest, hlines⟩ := exists_splitOn_script model program tunables
  have hquiet : (((frame.take 9).map (renderLine (slotValues model program tunables))).map
      String.toList).findSome? (textFor? (fuzzyVariable program setting.word)) = none := by
    rw [List.findSome?_eq_none_iff, List.map_map]
    intro line hline
    obtain ⟨source, hsource, rfl⟩ := List.mem_map.mp hline
    have hdeclaration := (quiet_renderLine model program tunables source hsource).declaration?_eq_none
    rw [textFor?, Function.comp_apply, hdeclaration]
    rfl
  have hnames : ∀ entry ∈ fuzzyEntries tunables, '=' ∉ entry.1.toList :=
    fun entry hentry => (fuzzyEntries_spec program tunables entry hentry).1
  rw [assigned?, hlines, List.append_assoc, List.findSome?_append, hquiet, Option.none_or,
    List.map_map]
  exact findSome?_fuzzyLine hnames (lookup_fuzzyEntries tunables setting) rest

/-- What Bash reads of a setting is its value, cut down to a signed number of 64 bits. -/
theorem read?_script (setting : Setting) :
    setting.read? program (script model program tunables) =
      some (Int64.ofNat (setting.value tunables)) := by
  rw [Setting.read?, assigned?_script, Option.bind_some, number?_toString]

end Lines

/-- Tunables that pass the check are put in a script. -/
theorem generateWith_of_check {tunables : Tunables} (h : tunables.check = .ok ())
    (executable : String) (root : Option Command) :
    generateWith executable root .bash tunables =
      .ok (script (.ofRoot? root) (programName executable root) tunables) := by
  rw [generateWith, h]
  rfl

/-- **What the tunables become in a script.** For every tree and all tunables that pass the check a
script is made, and Bash reads each of its numbers. If the tunable is below `2 ^ 63`, the number is
the same and all comparisons with counts decide as those of the matcher do. If it is not, the number
is negative and all of them decide the other way round. -/
theorem settings_agree_below (executable : String) (root : Option Command) (tunables : Tunables)
    (h : tunables.check = .ok ()) :
    ∃ script, generateWith executable root .bash tunables = .ok script ∧
      ∀ setting : Setting, ∃ read,
        setting.read? (programName executable root) script = some read ∧
          (setting.value tunables < 2 ^ 63 → Agrees read (setting.value tunables)) ∧
            (2 ^ 63 ≤ setting.value tunables → Turns read (setting.value tunables)) := by
  refine ⟨_, generateWith_of_check h executable root, fun setting => ?_⟩
  exact ⟨_, read?_script _ _ tunables setting, agrees_of_lt,
    fun hle => turns_of_le hle (setting.value_lt tunables)⟩

/-- The default tunables: the number of candidates that a script allows. -/
theorem settings_agree_below_default :
    ∃ script, generateWith "p" none .bash {} = .ok script ∧
      ∃ read, Setting.maxCandidates.read? "p" script = some read ∧ Agrees read 150 := by
  obtain ⟨script, hscript, hsettings⟩ := settings_agree_below "p" none {} rfl
  obtain ⟨read, hread, hagrees, -⟩ := hsettings .maxCandidates
  exact ⟨script, hscript, read, hread, hagrees (by decide)⟩

/-- **A number that turns negative.** The check lets `2 ^ 63` candidates pass. To the script every
list of candidates is then too long, to the matcher none is that could be written down. -/
theorem negative_setting :
    let tunables : Tunables := { maxCandidates := 9223372036854775808 }
    tunables.check = .ok () ∧
      ∃ script, generateWith "p" none .bash tunables = .ok script ∧
        ∃ read, Setting.maxCandidates.read? "p" script = some read ∧ read.toInt = -2 ^ 63 ∧
          read < Int64.ofNat 1 ∧ ¬tunables.maxCandidates.toNat < 1 := by
  intro tunables
  have hcheck : tunables.check = .ok () := rfl
  have hread : Setting.maxCandidates.read? "p" (script (.ofRoot? none) "p" tunables) =
      some (Int64.ofNat (2 ^ 63)) := read?_script _ _ tunables .maxCandidates
  have hturns := turns_of_le (Nat.le_refl (2 ^ 63)) (by decide)
  refine ⟨hcheck, _, generateWith_of_check hcheck "p" none, _, hread, ?_, ?_, ?_⟩
  · rw [hturns.toInt_eq]
    decide
  · exact (hturns.lt_and_lt 1 (by decide)).1
  · decide

end ShellCompletion.Script.Bash
