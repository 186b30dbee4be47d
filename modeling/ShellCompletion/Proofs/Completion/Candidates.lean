import ShellCompletion.Proofs.Completion.Descent
import ShellCompletion.Proofs.Completion.FlagValue
import ShellCompletion.Proofs.Matching.Offers

/-!
# What is offered for a word

Between the tree and what is offered on a command line stand the descent to a place, the choice
between the value of a flag and an option of the place, and the matcher. None of them makes anything
up: each item can be traced back to the tree, and each that leads on to a subcommand leads to a
place that is there.

* **Plans** (`planWord_eq_choose`): what is matched are either the values of a choice that the words
  ask for (`AsksFor`), or the options of the place.
* **Options** (`offersOptions_of_subperm`): what the matcher picks from the options of a place are
  records and names of subcommands there, nothing twice.
* **Going on** (`descend_append_of_follows`): behind words that all lead on, one more such word
  leads one place further.

Main statement: `candidates_real`, for every tree and every state of the matcher.
-/

namespace ShellCompletion

open Matching

/-! ### Plans -/

/-- The current word is completed as the value of the flag with this form: the two are joined by an
equals sign, or the form is the word before. The lead stands in front of the values. -/
inductive AsksFor (prior : List String) (current form : String) : (lead : String) → Prop
  /-- The word joins the form and the beginning of a value. -/
  | joined (value : String) :
    current = form ++ "=" ++ value → AsksFor prior current form (form ++ "=")
  /-- The form is the last of the words before. -/
  | apart : prior.getLast? = some form → AsksFor prior current form ""

namespace Model

variable {model : Model}

/-- The values of a flag are matched if it is a choice. -/
theorem valuePlan?_eq_choose {path : ContextPath} {form lead value lead' pattern : String}
    {values : List String}
    (h : model.valuePlan? path form lead value = some (.choose lead' pattern values)) :
    lead' = lead ∧ ∃ param, model.flagParam? path form = some param ∧ param.kind = .choice ∧
      values = param.values := by
  obtain ⟨param, hparam, hplan⟩ := Option.bind_eq_some_iff.mp h
  split at hplan
  next hkind =>
    cases hplan
    exact ⟨rfl, param, hparam, hkind, rfl⟩
  next => cases hplan
  next => cases hplan

/-- A word that is cut at an equals sign asks for the flag before it. -/
theorem asksFor_of_joinedFlag? {prior : List String} {current form value : String}
    (h : joinedFlag? current = some (form, value)) : AsksFor prior current form (form ++ "=") := by
  rw [joinedFlag?] at h
  split at h
  next before after hcut =>
    obtain ⟨hword, -⟩ := Text.eq_append_of_cutAtFirst? hcut
    dsimp only at h
    split at h
    next =>
      cases h
      refine .joined (String.ofList after) (String.toList_injective ?_)
      simp [hword]
    next => cases h
  next => cases h

/-- What is matched are the values of a choice that the words ask for, each behind its lead, or the
options of the place. -/
theorem planWord_eq_choose {prior : List String} {current lead pattern : String}
    {options : List String} (h : model.planWord prior current = .choose lead pattern options) :
    (∃ param, model.flagParam? (model.contextOf prior) param.form = some param ∧
      param.kind = .choice ∧ options = param.values ∧ AsksFor prior current param.form lead) ∨
    lead = "" ∧ options = (model.options? (model.contextOf prior)).getD [] := by
  rw [planWord] at h
  split at h
  -- flag and value in one word
  next form value hjoined =>
    cases hplan : model.valuePlan? (model.contextOf prior) form (form ++ "=") value with
    | none =>
      rw [hplan, Option.getD_none] at h
      cases h
      exact .inr ⟨rfl, rfl⟩
    | some plan =>
      rw [hplan, Option.getD_some] at h
      subst h
      obtain ⟨rfl, param, hparam, hkind, rfl⟩ := valuePlan?_eq_choose hplan
      obtain ⟨-, -, rfl⟩ := mem_of_flagParam?_eq_some hparam
      exact .inl ⟨param, hparam, hkind, rfl, asksFor_of_joinedFlag? hjoined⟩
  -- the flag is the word before
  next =>
    cases hplan : (lastFlag? prior).bind fun form =>
        model.valuePlan? (model.contextOf prior) form "" current with
    | none =>
      rw [hplan, Option.getD_none] at h
      cases h
      exact .inr ⟨rfl, rfl⟩
    | some plan =>
      rw [hplan, Option.getD_some] at h
      subst h
      obtain ⟨form, hlast, hplan⟩ := Option.bind_eq_some_iff.mp hplan
      obtain ⟨rfl, param, hparam, hkind, rfl⟩ := valuePlan?_eq_choose hplan
      obtain ⟨-, -, rfl⟩ := mem_of_flagParam?_eq_some hparam
      exact .inl ⟨param, hparam, hkind, rfl, .apart (Option.filter_eq_some_iff.mp hlast).1⟩

/-! ### Going on -/

/-- The words are followed to the last of them: none looks like a flag, and each leads on. -/
def Follows (model : Model) : ContextPath → List String → Prop
  | _, [] => True
  | path, word :: rest =>
    isFlagWord word = false ∧ model.hasContext (path.child word) = true ∧
      model.Follows (path.child word) rest

/-- Where all words lead on, one more that leads to a place leads one place further. -/
theorem descend_append_of_follows {path : ContextPath} {words : List String} {word : String}
    (h : model.Follows path words) (hword : isFlagWord word = false)
    (hplace : model.hasContext ((model.descend path words).child word) = true) :
    model.descend path (words ++ [word]) = (model.descend path words).child word := by
  induction words generalizing path with
  | nil =>
    rw [descend] at hplace ⊢
    rw [List.nil_append, descend, if_neg (by simp [hword]), if_pos hplace, descend]
  | cons first rest ih =>
    obtain ⟨hflag, hcontext, hrest⟩ := h
    have hfirst : ∀ more, model.descend path (first :: more) =
        model.descend (path.child first) more := by
      intro more
      rw [descend, if_neg (by simp [hflag]), if_pos hcontext]
    rw [hfirst] at hplace ⊢
    rw [List.cons_append, hfirst]
    exact ih hrest hplace

/-- A descent stays among the places that are there. -/
theorem hasContext_descend {path : ContextPath} (words : List String)
    (h : model.hasContext path = true) : model.hasContext (model.descend path words) = true := by
  fun_induction model.descend path words with
  | case1 => exact h
  | case2 => exact h
  | case3 _ _ _ _ hword ih => exact ih hword
  | case4 => exact h

/-- Where there is a place, there are options. -/
theorem exists_options? {path : ContextPath} (h : model.hasContext path = true) :
    ∃ options, model.options? path = some options := by
  rw [options?]
  split
  next => exact ⟨_, rfl⟩
  next hroot =>
    rw [hasContext, Bool.or_eq_true, or_iff_right hroot, Std.TreeMap.contains_iff_mem,
      Std.TreeMap.mem_iff_isSome_getElem?, Option.isSome_iff_exists] at h
    obtain ⟨set, hset⟩ := h
    exact ⟨set.toList, by rw [hset, Option.map_some]⟩

/-- There are options where the words lead. -/
theorem exists_options?_contextOf (model : Model) (words : List String) :
    ∃ options, model.options? (model.contextOf words) = some options :=
  exists_options? (hasContext_descend words.tail rfl)

end Model

/-! ### Options and records of a tree -/

section tree

variable {root : Command}

/-- A record is that of the first use of its form at its place. -/
theorem exists_eq_record {param : FlagParam} (h : param ∈ root.model.flagParams) :
    ∃ use, FlagUse.IsFirstAt root param.path param.form use ∧ param = use.record param.form := by
  obtain ⟨use, hfirst, hfilter⟩ := exists_isFirstAt (exists_isAt_of_mem_flagParams h)
  have hmem : param ∈ root.model.flagParams.filter (·.key = (param.path, param.form)) :=
    List.mem_filter.mpr ⟨h, decide_eq_true rfl⟩
  rw [hfilter] at hmem
  exact ⟨use, hfirst, List.mem_singleton.mp hmem⟩

/-- No option is listed twice for a place. -/
theorem nodup_options? {path : ContextPath} {options : List String}
    (h : root.model.options? path = some options) : options.Nodup := by
  obtain ⟨set, rfl, -⟩ := exists_optionSet h
  refine Std.TreeSet.distinct_toList.imp fun hne heq => hne ?_
  rw [heq, Std.LawfulEqOrd.compare_eq_iff_eq]

/-- An option that does not look like a flag leads on, by the name of a subcommand. -/
theorem leadsOn_of_mem_options? {path : ContextPath} {options : List String}
    (h : root.model.options? path = some options) {option : String} (hoption : option ∈ options)
    (hflag : isFlagWord option = false) :
    (∃ steps node, AliasChain root steps node ∧ stepsPath steps = path ∧
      ∃ sub ∈ node.subcommands, sub.HasName option) ∧
    root.model.hasContext (path.child option) = true := by
  obtain ⟨steps, node, hchain, rfl, hoffers⟩ := (mem_options?_iff h).mp hoption
  rcases hoffers with ⟨flag, -, hform⟩ | ⟨sub, hsub, hname⟩
  · rw [isFlagWord_of_hasForm hform] at hflag
    cases hflag
  · obtain ⟨i, hi⟩ := List.mem_iff_getElem?.mp hsub
    refine ⟨⟨steps, node, hchain, rfl, sub, hsub, hname⟩, hasContext_child_iff.mpr ?_⟩
    exact ⟨_, sub, by simp, hchain.step hi hname, stepsPath_append_singleton steps i option⟩

end tree

/-! ### What is offered -/

/-- The items are values of a choice at the place to which the words before the last one lead. -/
structure OffersValues (root : Command) (words items : List String) : Prop where
  /-- A choice is recorded there that the last word asks for, with the values that are declared by
  the first of the flags that have this form at the place. Each item is one of them, behind the
  lead. -/
  declared : ∃ param ∈ root.model.flagParams, param.path = root.model.contextOf words.dropLast ∧
    param.kind = .choice ∧
    (∃ use, FlagUse.IsFirstAt root param.path param.form use ∧ use.flag.kind = .choice ∧
      param.values = use.flag.values) ∧
    ∃ lead, AsksFor words.dropLast (words.getLast?.getD "") param.form lead ∧
      ∀ item ∈ items, ∃ value ∈ param.values, item = lead ++ value

/-- The items are options of the place to which the words before the last one lead. -/
structure OffersOptions (root : Command) (words items : List String) : Prop where
  /-- Each item is an option of the place. -/
  options : ∃ options, root.model.options? (root.model.contextOf words.dropLast) = some options ∧
    ∀ item ∈ items, item ∈ options
  /-- No item is offered twice. -/
  nodup : items.Nodup
  /-- An item without a dash in front is the name of a subcommand, and leads on to a place. -/
  leadsOn : ∀ item ∈ items, isFlagWord item = false →
    (∃ steps node, AliasChain root steps node ∧
      stepsPath steps = root.model.contextOf words.dropLast ∧
        ∃ sub ∈ node.subcommands, sub.HasName item) ∧
    root.model.hasContext ((root.model.contextOf words.dropLast).child item) = true
  /-- Put in the place of the last word, behind a program and words that all lead on, such an item
  leads to that place. -/
  accepted : ∀ program rest, words.dropLast = program :: rest → root.model.Follows .root rest →
    ∀ item ∈ items, isFlagWord item = false →
      root.model.contextOf (words.dropLast ++ [item]) =
        (root.model.contextOf words.dropLast).child item
  /-- An item with a dash in front is recorded as a flag of the place, or is the name of a
  subcommand. -/
  flags : ∀ item ∈ items, isFlagWord item = true →
    (∃ param ∈ root.model.flagParams,
      param.key = (root.model.contextOf words.dropLast, item)) ∨
    ∃ steps node, AliasChain root steps node ∧
      stepsPath steps = root.model.contextOf words.dropLast ∧
        ∃ sub ∈ node.subcommands, sub.HasName item

/-- A choice of the options of the place, in any order, offers options of it. -/
theorem offersOptions_of_subperm {root : Command} {words items options : List String}
    (h : root.model.options? (root.model.contextOf words.dropLast) = some options)
    (hitems : items.Subperm options) : OffersOptions root words items := by
  have hsubset : ∀ item ∈ items, item ∈ options := fun item hitem => hitems.subset hitem
  have hleads := fun item hitem => leadsOn_of_mem_options? h (hsubset item hitem)
  obtain ⟨kept, hkept, hsublist⟩ := hitems
  have hnodup : items.Nodup := hkept.nodup_iff.mp ((nodup_options? h).sublist hsublist)
  refine ⟨⟨options, h, hsubset⟩, hnodup, hleads, ?_, ?_⟩
  · intro program rest hprior hfollows item hitem hflag
    have hplace := (hleads item hitem hflag).2
    rw [hprior] at hplace ⊢
    exact Model.descend_append_of_follows hfollows hflag hplace
  · intro item hitem _
    exact mem_flagParams_or_hasName h (hsubset item hitem)

/-- **Offers are real, no option is offered twice, and none is a dead end.** After any session on
the matcher, for every tree and every command line: an answer that is not made of paths offers
either declared values of a choice, which the last word asks for and which is recorded at the place
to which the words before lead; or options of that place, each of them once. An option that does not
look like a flag then is the name of a subcommand, its place is there, and accepting it leads to that
place if all words behind the program led on. An option that looks like a flag is recorded there as
one or is the name of a subcommand. -/
theorem candidates_real (root : Command) (tunables : Tunables) (history : List Call)
    (files : FileSystem) (words : List String) {items : List String}
    (h : (root.model.completeIn files ((Matcher.new tunables).after history) words).1 =
      .candidates items) :
    OffersValues root words items ∨ OffersOptions root words items := by
  rw [(Matcher.transparent_completeIn (Matcher.honest_after tunables history) files root.model
    words).fst_eq] at h
  cases hplan : root.model.plan words with
  | list lead word =>
    rw [hplan] at h
    cases h
  | choose lead pattern options =>
    rw [hplan, Plan.completionFor] at h
    obtain rfl := Completion.candidates.inj h
    -- whichever tier answers, its items are taken from the options
    have hpicked := items_selectionFor_subperm
      ((Matcher.new tunables).after history).tunables pattern options
    rcases Model.planWord_eq_choose hplan with ⟨param, hparam, hkind, rfl, hasks⟩ | ⟨rfl, rfl⟩
    · obtain ⟨hmem, hplace, -⟩ := Model.mem_of_flagParam?_eq_some hparam
      obtain ⟨use, hfirst, hrecord⟩ := exists_eq_record hmem
      have huse : use.flag.kind = .choice := by rw [← hkind, hrecord]; rfl
      have hvalues : param.values = use.flag.values := by
        rw [hrecord]
        exact if_pos huse
      refine .inl ⟨param, hmem, hplace, hkind, ⟨use, hfirst, huse, hvalues⟩, lead, hasks, ?_⟩
      intro item hitem
      obtain ⟨value, hvalue, rfl⟩ := List.mem_map.mp hitem
      exact ⟨value, hpicked.subset hvalue, rfl⟩
    · obtain ⟨options, hoptions⟩ := root.model.exists_options?_contextOf words.dropLast
      rw [hoptions, Option.getD_some] at hpicked ⊢
      refine .inr (offersOptions_of_subperm hoptions ?_)
      simpa only [String.empty_append, List.map_id'] using hpicked

/-- Below an alias two subcommands are offered, one of them with a dash in front. -/
theorem candidates_real_alias :
    let sub : Command :=
      { name := "a", short := some "s", subcommands := [{ name := "n" }, { name := "-x" }] }
    let root : Command := { name := "p", subcommands := [sub] }
    (root.model.completeIn {} ((Matcher.new {}).after []) ["p", "s", ""]).1 =
        .candidates ["-x", "n"] ∧
      (OffersValues root ["p", "s", ""] ["-x", "n"] ∨
        OffersOptions root ["p", "s", ""] ["-x", "n"]) := by
  intro sub root
  have hanswer : (root.model.completeIn {} ((Matcher.new {}).after []) ["p", "s", ""]).1 =
      .candidates ["-x", "n"] := by
    unfold root sub
    decide +kernel
  exact ⟨hanswer, candidates_real root {} [] {} ["p", "s", ""] hanswer⟩

end ShellCompletion
