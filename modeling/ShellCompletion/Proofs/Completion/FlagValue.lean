import ShellCompletion.Proofs.Matching.Session
import ShellCompletion.Proofs.Model.FlagRecords

/-!
# The two spellings of a flag's value

The value of a flag is typed as a word of its own behind the flag, or in one word with the flag and
an equals sign between them. The two ways lead through different parts of the planning: the joined
word is cut at its first equals sign, while for two words the flag is the last of the words before
the one that is completed, and may be the program's own place.

* **Cutting the last word** (`joinedFlag?_append`, `joinedFlag?_eq_none`): what the joined word is
  cut into, and which words are not cut at all.
* **The flag among the words** (`contextOf_append_flag`): a flag at the end of a line leads no
  further than the words before it.
* **One plan, two leads** (`plan_joined`, `plan_apart`): both spellings are planned as the value of
  the same flag at the same place, and the plans differ only in what is put in front of the items.

Main statement: `completeIn_joined`, for every tree and every state of the matcher.
-/

namespace ShellCompletion

/-- A word is taken for a flag if it begins with a dash. -/
theorem isFlagWord_iff {word : String} :
    isFlagWord word = true ↔ ∃ rest, word.toList = '-' :: rest := by
  rw [isFlagWord, Text.startsWith_iff]
  constructor
  · rintro ⟨rest, hrest⟩
    exact ⟨rest, hrest.symm⟩
  · rintro ⟨rest, hrest⟩
    exact ⟨rest, hrest.symm⟩

/-! ### Cutting the last word -/

/-- A word that joins a flag and a value is cut at the equals sign between them, whatever other
equals signs are in the value. -/
theorem joinedFlag?_append {flag : String} (hflag : isFlagWord flag = true)
    (hequals : '=' ∉ flag.toList) (value : String) :
    joinedFlag? (flag ++ "=" ++ value) = some (flag, value) := by
  have hword : (flag ++ "=" ++ value).toList = flag.toList ++ '=' :: value.toList := by simp
  rw [joinedFlag?, hword, Text.cutAtFirst?_append hequals]
  simp only [String.ofList_toList, hflag, if_true]

/-- A word is not cut unless it both begins with a dash and has an equals sign in it. -/
theorem joinedFlag?_eq_none {word : String} (h : ¬(isFlagWord word = true ∧ '=' ∈ word.toList)) :
    joinedFlag? word = none := by
  rw [joinedFlag?]
  split
  next before after hcut =>
    obtain ⟨hword, -⟩ := Text.eq_append_of_cutAtFirst? hcut
    have hequals : '=' ∈ word.toList := by simp [hword]
    refine if_neg fun hbefore => h ⟨?_, hequals⟩
    -- what stands before the equals sign is where the word begins, so the word has the dash too
    obtain ⟨rest, hrest⟩ := isFlagWord_iff.mp hbefore
    rw [String.toList_ofList] at hrest
    exact isFlagWord_iff.mpr ⟨rest ++ '=' :: after, by rw [hword, hrest, List.cons_append]⟩
  next => rfl

/-! ### The flag among the words -/

namespace Model

variable (model : Model)

/-- A flag at the end of the words leads no further. -/
theorem descend_append_flag {flag : String} (h : isFlagWord flag = true) (path : ContextPath)
    (words : List String) : model.descend path (words ++ [flag]) = model.descend path words := by
  induction words generalizing path with
  | nil => simp only [List.nil_append, descend, h, if_true]
  | cons word rest ih =>
    rw [List.cons_append, descend, descend]
    split
    · rfl
    · split
      · exact ih _
      · rfl

/-- A flag at the end of the words leads no further. If there are no words before it, it stands in
the place of the program, which is not looked at. -/
theorem contextOf_append_flag {flag : String} (h : isFlagWord flag = true) (words : List String) :
    model.contextOf (words ++ [flag]) = model.contextOf words := by
  cases words with
  | nil => rfl
  | cons program rest => exact descend_append_flag model h _ rest

/-! ### One plan, two leads -/

/-- The last word is the one that is completed. -/
theorem plan_append_singleton (prior : List String) (current : String) :
    model.plan (prior ++ [current]) = model.planWord prior current := by
  rw [plan, List.dropLast_concat, List.getLast?_concat, Option.getD_some]

/-- The plan of the joined spelling. -/
theorem plan_joined {prior : List String} {flag value : String} {plan : Plan}
    (hflag : isFlagWord flag = true) (hequals : '=' ∉ flag.toList)
    (hplan : model.valuePlan? (model.contextOf prior) flag (flag ++ "=") value = some plan) :
    model.plan (prior ++ [flag ++ "=" ++ value]) = plan := by
  rw [plan_append_singleton, planWord, joinedFlag?_append hflag hequals]
  simp only [hplan, Option.getD_some]

/-- The plan of the spelling in two words. -/
theorem plan_apart {prior : List String} {flag value : String} {plan : Plan}
    (hflag : isFlagWord flag = true) (hvalue : ¬(isFlagWord value = true ∧ '=' ∈ value.toList))
    (hplan : model.valuePlan? (model.contextOf prior) flag "" value = some plan) :
    model.plan (prior ++ [flag, value]) = plan := by
  have hlast : lastFlag? (prior ++ [flag]) = some flag := by
    rw [lastFlag?, List.getLast?_concat, Option.filter_some, if_pos hflag]
  rw [List.append_cons, plan_append_singleton, planWord, joinedFlag?_eq_none hvalue,
    contextOf_append_flag model hflag]
  simp only [hlast, Option.bind_some, hplan, Option.getD_some]

end Model

namespace Plan

/-- The same plan with another lead. -/
def withLead (lead : String) : Plan → Plan
  | choose _ pattern options => choose lead pattern options
  | list _ word => list lead word

end Plan

/-- An answer with something done to each item. It stays an answer of the same kind. -/
def Completion.map (f : String → String) : Completion → Completion
  | candidates items => candidates (items.map f)
  | paths items => paths (items.map f)

/-- A lead stands in front of each item, and makes no other difference. -/
theorem Plan.run_withLead (paths : String → List String) (matcher : Matcher) (plan : Plan)
    (lead : String) :
    (plan.withLead lead).run paths matcher =
      (((plan.withLead "").run paths matcher).1.map (lead ++ ·),
        ((plan.withLead "").run paths matcher).2) := by
  have hitems : ∀ items : List String,
      (items.map ("" ++ ·)).map (lead ++ ·) = items.map (lead ++ ·) := by
    intro items
    simp only [List.map_map, Function.comp_def, String.empty_append]
  cases plan with
  | choose _ pattern options => simp only [withLead, run, Completion.map, hitems]
  | list _ word => simp only [withLead, run, Completion.map, hitems]

/-! ### The flag at its place -/

/-- What is found for a form at a place is a record of the form there. -/
theorem Model.mem_of_flagParam?_eq_some {model : Model} {path : ContextPath} {form : String}
    {param : FlagParam} (h : model.flagParam? path form = some param) :
    param ∈ model.flagParams ∧ param.path = path ∧ param.form = form := by
  have hkey : param.key = (path, form) := by simpa using List.find?_some h
  exact ⟨List.mem_of_find?_eq_some h, congrArg Prod.fst hkey, congrArg Prod.snd hkey⟩

section tree

variable {root : Command} {param : FlagParam}

/-- The forms of a flag begin with a dash. -/
theorem isFlagWord_of_hasForm {flag : Flag} {form : String} (h : flag.HasForm form) :
    isFlagWord form = true := by
  obtain ⟨name, -, hform⟩ := h
  rw [isFlagWord_iff]
  rcases hform with ⟨-, rfl⟩ | ⟨-, rfl⟩
  · exact ⟨'-' :: name.toList, by simp⟩
  · exact ⟨name.toList, by simp⟩

/-- The form of every record is taken for a flag. -/
theorem isFlagWord_of_mem_flagParams (h : param ∈ root.model.flagParams) :
    isFlagWord param.form = true := by
  obtain ⟨use, -, hform, -⟩ := exists_isAt_of_mem_flagParams h
  exact isFlagWord_of_hasForm hform

/-- A record is found under its place and its form. -/
theorem flagParam?_eq_some (h : param ∈ root.model.flagParams) :
    root.model.flagParam? param.path param.form = some param := by
  cases hfound : root.model.flagParam? param.path param.form with
  | none =>
    have hnone := List.find?_eq_none.mp hfound param h
    exact absurd (decide_eq_true rfl) hnone
  | some found =>
    obtain ⟨hmem, hpath, hform⟩ := Model.mem_of_flagParam?_eq_some hfound
    rw [List.inj_on_of_nodup_map nodup_flagParams_key hmem h (Prod.ext hpath hform)]

/-- The value of a flag that takes one is planned alike whatever its lead. -/
theorem exists_valuePlan? (h : param ∈ root.model.flagParams) (hkind : param.kind ≠ .switch)
    (value : String) :
    ∃ plan : Plan, ∀ lead,
      root.model.valuePlan? param.path param.form lead value = some (plan.withLead lead) := by
  simp only [Model.valuePlan?, flagParam?_eq_some h, Option.bind_some]
  cases hparam : param.kind with
  | switch => exact absurd hparam hkind
  | text => exact ⟨.list "" value, fun lead => rfl⟩
  | choice => exact ⟨.choose "" value param.values, fun lead => rfl⟩

end tree

/-- **The two spellings of a flag's value agree.** Take a flag that is recorded where the words
before it lead, takes a value and has no equals sign in its form, and a value that does not both
begin with a dash and have an equals sign in it. Completing the flag and the value in one word gives
an answer of the same kind as completing them in two words, with the same items in the same order,
each behind the flag and an equals sign. Both leave the same matcher behind. -/
theorem completeIn_joined (root : Command) (files : FileSystem) (matcher : Matcher)
    (prior : List String) (value : String) {param : FlagParam}
    (hparam : param ∈ root.model.flagParams) (hplace : param.path = root.model.contextOf prior)
    (hkind : param.kind ≠ .switch) (hform : '=' ∉ param.form.toList)
    (hvalue : ¬(isFlagWord value = true ∧ '=' ∈ value.toList)) :
    let joined := root.model.completeIn files matcher (prior ++ [param.form ++ "=" ++ value])
    let apart := root.model.completeIn files matcher (prior ++ [param.form, value])
    joined.1 = apart.1.map (param.form ++ "=" ++ ·) ∧ joined.2 = apart.2 := by
  intro joined apart
  have hflag := isFlagWord_of_mem_flagParams hparam
  obtain ⟨plan, hplan⟩ := exists_valuePlan? hparam hkind value
  rw [hplace] at hplan
  have hjoined : joined = (plan.withLead (param.form ++ "=")).run (pathsIn files) matcher := by
    rw [← root.model.plan_joined hflag hform (hplan _)]
    exact Model.completeIn_eq files root.model matcher _
  have hapart : apart = (plan.withLead "").run (pathsIn files) matcher := by
    rw [← root.model.plan_apart hflag hvalue (hplan _)]
    exact Model.completeIn_eq files root.model matcher _
  rw [hjoined, hapart, Plan.run_withLead]
  exact ⟨rfl, rfl⟩

/-- The equals signs of a value are not taken for the one behind the flag, and a flag among the
words before does no harm. -/
theorem completeIn_joined_equals :
    let flag : Flag := .choice none (some "set") ["a=1", "b", "a=2"]
    let root : Command := { name := "p", flags := [flag] }
    let param : FlagParam := ⟨.root, "--set", .choice, flag.values⟩
    let answer := fun words => (root.model.completeIn {} (.new {}) (["p", "-v"] ++ words)).1
    param ∈ root.model.flagParams ∧ answer ["--set", "a="] = .candidates ["a=1", "a=2"] ∧
      answer ["--set=a="] = .candidates ["--set=a=1", "--set=a=2"] := by
  intro flag root param answer
  have hparam : param ∈ root.model.flagParams := by
    have hrecords : root.model.flagParams = [param] := by decide +kernel
    rw [hrecords]
    exact List.mem_singleton_self _
  have hapart : answer ["--set", "a="] = .candidates ["a=1", "a=2"] := by decide +kernel
  have hjoined := (completeIn_joined root {} (.new {}) ["p", "-v"] "a=" hparam rfl (by decide)
    (by decide) (by decide)).1
  refine ⟨hparam, hapart, hjoined.trans ?_⟩
  exact (congrArg (Completion.map ("--set=" ++ ·)) hapart).trans (by decide)

end ShellCompletion
