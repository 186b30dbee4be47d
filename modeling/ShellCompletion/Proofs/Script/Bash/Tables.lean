import ShellCompletion.Proofs.Script.Bash.FrameLines

/-!
# The tables of a Bash script

A script has one table that numbers the places and one that numbers the flags with a choice of
values. The lists to which the numbers lead are arrays of their own, with the number in their name,
and they are written by other loops than the rows. Read as Bash reads it, a script declares for each
number the list that belongs to it.

* **The blocks of a script** (`script_eq_ofLines`): the tables, the arrays, and lines that have
  nothing to do with them.
* **What they declare** (`declarations?_script`), with keys that may have any characters in them.
* **Each name once** (`nodup_declared`).

Main statement: `declarations_read_back`.
-/

namespace ShellCompletion.Script.Bash

/-! ### The lines of a script -/

/-- The two lines of the frame that become a table. -/
theorem ofLines_renderLine_table {values : List (String × String)} {program family slot : String}
    {rows : List String} (hident : filledIn values "IDENT" = bashIdentifier program)
    (hrows : filledIn values slot = Text.ofLines rows) (hslot : isSlotName slot.toList = true)
    (hfamily : cutAtMarks? ("_" ++ family ++ "=(").toList = none) :
    Text.ofLines (["declare -gA _" ++ "@@" ++ "IDENT" ++ "@@" ++ ("_" ++ family ++ "=("),
        "" ++ "@@" ++ slot ++ "@@" ++ ")"].map (renderLine values)) =
      Text.ofLines (tableLines program family rows) := by
  have hopening : renderLine values
      ("declare -gA _" ++ "@@" ++ "IDENT" ++ "@@" ++ ("_" ++ family ++ "=(")) =
        "declare -gA " ++ variableName program family ++ "=(" := by
    have hfront : "declare -gA _" = "declare -gA " ++ "_" := by decide
    rw [renderLine_single_slot (by decide) (by decide) hfamily, hident, variableName, hfront]
    simp only [String.append_assoc]
  have hclosing : renderLine values ("" ++ "@@" ++ slot ++ "@@" ++ ")") =
      Text.ofLines rows ++ ")" := by
    rw [renderLine_single_slot (by decide) hslot rfl, hrows, String.empty_append]
  rw [List.map_cons, List.map_singleton, hopening, hclosing, tableLines, ofLines_cons, ofLines_cons,
    ofLines_cons, ofLines_append]
  simp only [String.append_assoc, ofLines_cons]

/-- The line of the frame that becomes a block of lines, with an empty line behind them. -/
theorem ofLines_renderLine_block {values : List (String × String)} {slot : String}
    {lines : List String} (hlines : filledIn values slot = Text.ofLines lines)
    (hslot : isSlotName slot.toList = true) :
    Text.ofLines (["" ++ "@@" ++ slot ++ "@@" ++ ""].map (renderLine values)) =
      Text.ofLines (lines ++ [""]) := by
  rw [List.map_singleton, renderLine_single_slot (by decide) hslot rfl, hlines, ofLines_cons,
    ofLines_append, ofLines_cons, String.empty_append, String.empty_append, String.append_empty,
    String.append_assoc]

variable (model : Model) (program : String) (tunables : Tunables)

/-- The lines of a script, block by block. -/
theorem script_eq_ofLines : script model program tunables =
    Text.ofLines ((frame.take 17).map (renderLine (slotValues model program tunables)) ++
      tableLines program "contexts" (contextLines model) ++
      (optionLines (bashIdentifier program) model ++ [""]) ++
      ["# \"context|flag\" -> value kind"].map (renderLine (slotValues model program tunables)) ++
      tableLines program "flag_kinds" (kindLines model) ++
      ["# \"context|flag\" -> index of its _@@IDENT@@_enum_N array"].map
        (renderLine (slotValues model program tunables)) ++
      tableLines program "flag_enums" (choiceLines model) ++
      (valueLines (bashIdentifier program) model ++ [""]) ++
      ["declare -gA " ++ variableName program "score_cache" ++ "=()"] ++
      (frame.drop 28).map (renderLine (slotValues model program tunables))) := by
  -- the frame, cut around the lines that become tables and arrays
  have hparts : frame = frame.take 17 ++
    ["declare -gA _" ++ "@@" ++ "IDENT" ++ "@@" ++ ("_" ++ "contexts" ++ "=("),
      "" ++ "@@" ++ "CONTEXT_ENTRIES" ++ "@@" ++ ")"] ++
    ["" ++ "@@" ++ "OPTION_ARRAYS" ++ "@@" ++ ""] ++
    ["# \"context|flag\" -> value kind"] ++
    ["declare -gA _" ++ "@@" ++ "IDENT" ++ "@@" ++ ("_" ++ "flag_kinds" ++ "=("),
      "" ++ "@@" ++ "FLAG_KIND_ENTRIES" ++ "@@" ++ ")"] ++
    ["# \"context|flag\" -> index of its _@@IDENT@@_enum_N array"] ++
    ["declare -gA _" ++ "@@" ++ "IDENT" ++ "@@" ++ ("_" ++ "flag_enums" ++ "=("),
      "" ++ "@@" ++ "FLAG_ENUM_ENTRIES" ++ "@@" ++ ")"] ++
    ["" ++ "@@" ++ "ENUM_ARRAYS" ++ "@@" ++ ""] ++
    ["declare -gA _" ++ "@@" ++ "IDENT" ++ "@@" ++ "_score_cache=()"] ++
    frame.drop 28 := rfl
  let values := slotValues model program tunables
  have hident : filledIn values "IDENT" = bashIdentifier program := rfl
  have hcontexts : filledIn values "CONTEXT_ENTRIES" = Text.ofLines (contextLines model) := rfl
  have hoptions : filledIn values "OPTION_ARRAYS" =
      Text.ofLines (optionLines (bashIdentifier program) model) := rfl
  have hkinds : filledIn values "FLAG_KIND_ENTRIES" = Text.ofLines (kindLines model) := rfl
  have hchoices : filledIn values "FLAG_ENUM_ENTRIES" = Text.ofLines (choiceLines model) := rfl
  have hvalues : filledIn values "ENUM_ARRAYS" =
      Text.ofLines (valueLines (bashIdentifier program) model) := rfl
  have hcache :
      ["declare -gA _" ++ "@@" ++ "IDENT" ++ "@@" ++ "_score_cache=()"].map (renderLine values) =
        ["declare -gA " ++ variableName program "score_cache" ++ "=()"] := by
    have hfront : "declare -gA _" = "declare -gA " ++ "_" := by decide
    have hback : "_score_cache=()" = "_" ++ ("score_cache" ++ "=()") := by decide
    rw [List.map_singleton, renderLine_single_slot (by decide) (by decide) rfl, hident,
      variableName, hfront, hback]
    simp only [String.append_assoc]
  rw [script, template, renderTemplate_ofLines]
  conv_lhs => rw [hparts]
  show Text.ofLines (List.map (renderLine values) _) = _
  simp only [List.map_append, ofLines_append]
  rw [hcache, ofLines_renderLine_table hident hcontexts (by decide) rfl,
    ofLines_renderLine_block hoptions (by decide),
    ofLines_renderLine_table hident hkinds (by decide) rfl,
    ofLines_renderLine_table hident hchoices (by decide) rfl,
    ofLines_renderLine_block hvalues (by decide), ofLines_append, ofLines_append]

/-! ### What they declare -/

/-- The value by which a script tells a kind. -/
def kindValue : ValueKind → String
  | .switch => "bool"
  | .text => "string"
  | .choice => "enum"

/-- The word of a kind is the value by which a script tells it. -/
theorem word_eq_kindValue (kind : ValueKind) : kind.word = kindValue kind := by
  cases kind <;> rfl

/-- What a script is to declare: the table of the places, with the array of its options for each
number in it, the kinds of the flags, the table of the choices, with the array of its values for
each number in it, and an empty table for scores. A flag is known by its place and its form with a
bar between them. -/
def declared : List Declaration :=
  let key (param : FlagParam) : List Char := View.read.kept (param.path.text ++ "|" ++ param.form)
  let choiceParams : List FlagParam := model.flagParams.filter (·.kind = .choice)
  [.table (variableName program "contexts")
    (model.allContexts.zipIdx.map fun (entry, number) =>
      (View.read.kept entry.1.text, toString number))] ++
  model.allContexts.zipIdx.map (fun (entry, number) =>
    .array (variableName program ("opts_" ++ toString number)) (entry.2.map word)) ++
  [.table (variableName program "flag_kinds")
    (model.flagParams.map fun param => (key param, kindValue param.kind))] ++
  [.table (variableName program "flag_enums")
    (choiceParams.zipIdx.map fun (param, number) => (key param, toString number))] ++
  choiceParams.zipIdx.map (fun (param, number) =>
    .array (variableName program ("enum_" ++ toString number)) (param.values.map word)) ++
  [.table (variableName program "score_cache") []]

/-- A script declares what it is to declare. -/
theorem declarations?_script :
    declarations? (script model program tunables) = some (declared model program) := by
  have hother : ∀ lines, lines ⊆ otherLines →
      Declares (lines.map (renderLine (slotValues model program tunables))) [] :=
    fun _ => declares_otherLines model program tunables
  have hbefore := hother (frame.take 17) fun line hline =>
    List.mem_append_left _ (List.mem_append_left _ hline)
  have hbetween : ∀ line ∈ linesBetween,
      Declares ([line].map (renderLine (slotValues model program tunables))) [] :=
    fun line hline => hother [line] (List.cons_subset.mpr
      ⟨List.mem_append_left _ (List.mem_append_right _ hline), List.nil_subset _⟩)
  have hbehind := hother (frame.drop 28) fun line hline => List.mem_append_right _ hline
  have hempty : Declares [""] [] := by
    have hrendered := hbetween "" (by decide)
    rwa [List.map_singleton, renderLine_of_none rfl] at hrendered
  have hcontexts := declares_table program (by decide : isName "contexts" = true)
    (fun row : (ContextPath × List String) × Nat => row.1.1.text)
    (fun row => isName_toString row.2) model.allContexts.zipIdx
  have hoptions := declares_arrays program (by decide : isName "opts" = true)
    (fun row : (ContextPath × List String) × Nat => row.2) (fun row => row.1.2)
    model.allContexts.zipIdx
  have hword : ∀ param : FlagParam, isName param.kind.word = true := by
    intro param
    cases param.kind <;> decide
  have hkinds := declares_table program (by decide : isName "flag_kinds" = true) flagKey hword
    model.flagParams
  have hchoices := declares_table program (by decide : isName "flag_enums" = true)
    (fun row : FlagParam × Nat => flagKey row.1) (fun row => isName_toString row.2)
    (choices model).zipIdx
  have hvalues := declares_arrays program (by decide : isName "enum" = true)
    (fun row : FlagParam × Nat => row.2) (fun row => row.1.values) (choices model).zipIdx
  have hcache := declares_empty program (by decide : isName "score_cache" = true)
  have hplaces := (hbefore.append hcontexts).append (hoptions.append hempty)
  have hflags := (hplaces.append (hbetween _ List.mem_cons_self)).append hkinds
  have hlists := ((hflags.append
    (hbetween _ (List.mem_cons_of_mem _ List.mem_cons_self))).append hchoices).append
      (hvalues.append hempty)
  have hread := declarations?_ofLines ((hlists.append hcache).append hbehind)
  -- the names of the arrays, as they are written in the lines
  have hopts : "opts" ++ "_" = "opts_" := by decide
  have henum : "enum" ++ "_" = "enum_" := by decide
  simp only [List.append_nil, List.nil_append, hopts, henum, word_eq_kindValue] at hread
  rw [script_eq_ofLines]
  exact hread

/-! ### Each name once -/

/-- Different endings make different names of variables. -/
theorem variableName_injective : Function.Injective (variableName program) := by
  intro a b h
  simpa [variableName, ← String.toList_inj] using h

/-- The numbers of one family make different names. -/
theorem numbered_injective (family : String) :
    Function.Injective fun number : Nat => family ++ toString number := by
  intro a b h
  have hdigits : Nat.toDigits 10 a = Nat.toDigits 10 b := by
    simpa [← String.toList_inj, Nat.toString_eq_ofList_toDigits] using h
  calc
    a = Nat.ofDigitChars 10 (Nat.toDigits 10 a) 0 := Nat.ofDigitChars_ten_toDigits.symm
    _ = Nat.ofDigitChars 10 (Nat.toDigits 10 b) 0 := by rw [hdigits]
    _ = b := Nat.ofDigitChars_ten_toDigits

/-- Names in groups, each with an initial of its own, are different if each group's names are. -/
theorem nodup_of_initials {groups : List (Char × List String)}
    (hinitials : (groups.map Prod.fst).Nodup)
    (h : ∀ group ∈ groups,
      group.2.Nodup ∧ ∀ name ∈ group.2, name.toList.head? = some group.1) :
    (groups.flatMap Prod.snd).Nodup := by
  refine List.nodup_flatMap.mpr ⟨fun group hgroup => (h group hgroup).1, ?_⟩
  refine (List.pairwise_map.mp hinitials).imp_of_mem fun {a b} ha hb hne name hname hname' => ?_
  have hsame := ((h a ha).2 name hname).symm.trans ((h b hb).2 name hname')
  exact hne (Option.some.inj hsame)

/-- **Nothing is declared twice.** -/
theorem nodup_declared : ((declared model program).map Declaration.name).Nodup := by
  let numbered (family : String) (count : Nat) : List String :=
    (List.range' 0 count).map fun number => family ++ toString number
  let choiceParams : List FlagParam := model.flagParams.filter (·.kind = .choice)
  let groups : List (Char × List String) :=
    [('c', ["contexts"]), ('o', numbered "opts_" model.allContexts.length),
      ('f', ["flag_kinds", "flag_enums"]), ('e', numbered "enum_" choiceParams.length),
      ('s', ["score_cache"])]
  have hnames : (declared model program).map Declaration.name =
      (groups.flatMap Prod.snd).map (variableName program) := by
    simp [declared, choiceParams, groups, numbered, ← List.zipIdx_map_snd, Function.comp_def,
      Declaration.name]
  -- within a family the numbers tell the names apart
  have hnumbered : ∀ (initial : Char) (family : String) (count : Nat),
      family.toList.head? = some initial → (numbered family count).Nodup ∧
        ∀ name ∈ numbered family count, name.toList.head? = some initial := by
    intro initial family count hfamily
    refine ⟨List.Nodup.map (numbered_injective family) List.nodup_range', ?_⟩
    intro name hname
    obtain ⟨number, -, rfl⟩ := List.mem_map.mp hname
    rw [String.toList_append, List.head?_append, hfamily, Option.some_or]
  rw [hnames]
  apply List.Nodup.map (variableName_injective program)
  have hinitials : (groups.map Prod.fst).Nodup := by
    show ['c', 'o', 'f', 'e', 's'].Nodup
    decide
  apply nodup_of_initials hinitials
  simp only [groups, List.forall_mem_cons]
  exact ⟨by decide, hnumbered 'o' "opts_" _ (by decide), by decide,
    hnumbered 'e' "enum_" _ (by decide), by decide, List.forall_mem_nil _⟩

/-- **The tables of a script lead to the right lists.** For every model, every name of a program and
all tunables, a script declares what it is to declare and nothing else: the row at each position of
the table of places has that position for its number and the place for its key, without what Bash
does not see of it, and the array of that number has the options of the place; the same goes for the
choices, and each record of a flag has a row that tells its kind. Nothing is declared twice. -/
theorem declarations_read_back :
    declarations? (script model program tunables) = some (declared model program) ∧
      ((declared model program).map Declaration.name).Nodup :=
  ⟨declarations?_script model program tunables, nodup_declared model program⟩

end ShellCompletion.Script.Bash
