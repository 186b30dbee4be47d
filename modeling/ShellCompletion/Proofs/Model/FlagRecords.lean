import Mathlib.Data.List.Nodup
import ShellCompletion.Proofs.Model.Options
import ShellCompletion.Proofs.Model.WalkOrder

/-!
# The flag records of a model

The records are collected on the walk, and of several records with the same place and the same form
only the first is kept. In terms of the tree: a place has one record for each form that some flag
has at the end of some chain to it, and the record describes the first of these flags in the order
of the walk.

* **Keeping the first** (`filter_firstPerKey`): which of the collected records are kept.
* **Uses of flags** (`FlagUse`): the flags of a tree with the chains to them, in the order in which
  they are declared at the end of a chain and otherwise in that of the walk. No two uses come each
  before the other (`FlagUse.Precedes.asymm`), so the first one is well-defined.

Main statement: `flagParams_spec`, for every tree.
-/

namespace ShellCompletion

/-! ### Keeping the first record of each key -/

/-- Of the records with a key the first is kept, unless the key is taken. -/
theorem FlagParam.filter_firstPerKey (key : ContextPath × String)
    (seen : List (ContextPath × String)) (params : List FlagParam) :
    (firstPerKey seen params).filter (·.key = key) =
      if key ∈ seen then [] else (params.find? (·.key = key)).toList := by
  induction params generalizing seen with
  | nil => simp [firstPerKey]
  | cons param rest ih =>
    rw [firstPerKey]
    by_cases hkey : param.key = key
    · subst hkey
      split
      next hseen => rw [ih, if_pos hseen]
      next hseen => simp [ih, hseen]
    · split
      next => simp [ih, hkey]
      next => simp [ih, hkey, Ne.symm hkey]

/-- No two of the records that are kept have the same key. -/
theorem FlagParam.nodup_key_firstPerKey (params : List FlagParam) :
    ((firstPerKey [] params).map key).Nodup := by
  rw [List.nodup_iff_count_le_one]
  intro taken
  have hcount : ((firstPerKey [] params).map key).count taken =
      ((firstPerKey [] params).filter (·.key = taken)).length := by
    rw [List.count_eq_countP, List.countP_map, List.countP_eq_length_filter]
    simp only [Function.comp_def, beq_eq_decide]
  rw [hcount, filter_firstPerKey, if_neg List.not_mem_nil]
  cases params.find? (·.key = taken) with
  | none => exact Nat.zero_le 1
  | some param => exact Nat.le_refl 1

/-! ### Uses of flags -/

/-- A flag of the node at the end of a chain. -/
structure FlagUse where
  /-- The steps of the chain. -/
  steps : List (Nat × String)
  /-- The number of the flag at the node. -/
  number : Nat
  /-- The flag. -/
  flag : Flag

namespace FlagUse

/-- The chain leads to the place, and there the flag can be typed in this form. -/
def IsAt (root : Command) (path : ContextPath) (form : String) (use : FlagUse) : Prop :=
  stepsPath use.steps = path ∧ use.flag.HasForm form ∧
    ∃ node, AliasChain root use.steps node ∧ node.flags[use.number]? = some use.flag

/-- The first use comes before the second: its chain comes first on the walk (`inOrder_walk`) or, at
the end of one chain, its flag is declared first. -/
def Precedes (root : Command) (use other : FlagUse) : Prop :=
  WalkBefore root use.steps other.steps ∨ use.steps = other.steps ∧ use.number < other.number

/-- The use is the first one with the form at the place. -/
def IsFirstAt (root : Command) (path : ContextPath) (form : String) (use : FlagUse) : Prop :=
  use.IsAt root path form ∧
    ∀ other, IsAt root path form other → other = use ∨ use.Precedes root other

/-- No two uses of flags precede each other. -/
theorem Precedes.asymm {root : Command} {use other : FlagUse} (h : use.Precedes root other) :
    ¬other.Precedes root use := by
  rcases h with hbefore | ⟨hsteps, hlt⟩
  · rintro (hbefore' | ⟨hsteps', -⟩)
    · exact hbefore.asymm hbefore'
    · rw [hsteps'] at hbefore
      exact hbefore.asymm hbefore
  · rintro (hbefore' | ⟨-, hlt'⟩)
    · rw [hsteps] at hbefore'
      exact hbefore'.asymm hbefore'
    · omega

/-- Only one use is the first. -/
theorem IsFirstAt.unique {root : Command} {path : ContextPath} {form : String}
    {use other : FlagUse} (h : use.IsFirstAt root path form)
    (h' : other.IsFirstAt root path form) : other = use := by
  rcases h.2 other h'.1 with heq | hbefore
  · exact heq
  · rcases h'.2 use h.1 with heq | hafter
    · exact heq.symm
    · exact absurd hafter hbefore.asymm

/-- The record of a form of the flag at the place of the chain. -/
def record (use : FlagUse) (form : String) : FlagParam :=
  { path := stepsPath use.steps, form, kind := use.flag.kind,
    values := if use.flag.kind = .choice then use.flag.values else [] }

end FlagUse

/-- The uses of the flags at the end of a chain, once for each form. -/
def Turn.flagUses (turn : Turn) : List (FlagUse × String) :=
  turn.node.flags.zipIdx.flatMap fun flag =>
    flag.1.typedForms.map fun form => (⟨turn.steps, flag.2, flag.1⟩, form)

/-- All uses of flags in the order of the walk, once for each form. -/
def Command.flagUses (root : Command) : List (FlagUse × String) :=
  root.walk.flatMap Turn.flagUses

section uses

variable {root : Command}

/-- The records of the uses at a turn are those of its visit. -/
theorem Turn.map_record_flagUses (turn : Turn) :
    (turn.flagUses.map fun entry => entry.1.record entry.2) = turn.visit.flagParams := by
  rw [Visit.flagParams, ← flatMap_zipIdx, flagUses, List.map_flatMap]
  simp only [List.map_map, Function.comp_def]
  rfl

/-- The records of a model are the first ones of all uses. -/
theorem flagParams_eq :
    root.model.flagParams =
      FlagParam.firstPerKey [] (root.flagUses.map fun entry => entry.1.record entry.2) := by
  rw [Command.model, ← map_visit_walk, Command.flagUses, List.map_flatMap, List.flatMap_map]
  simp only [Turn.map_record_flagUses]

/-- The uses of flags on the walk are those that stand at the places of their steps. -/
theorem mem_flagUses_iff {use : FlagUse} {form : String} :
    (use, form) ∈ root.flagUses ↔ use.IsAt root (stepsPath use.steps) form := by
  obtain ⟨steps, number, flag⟩ := use
  simp only [Command.flagUses, Turn.flagUses, List.mem_flatMap, List.mem_map, Prod.mk.injEq,
    FlagUse.mk.injEq, Prod.exists, List.mk_mem_zipIdx_iff_getElem?, Flag.mem_typedForms,
    mem_walk_iff, FlagUse.IsAt, true_and]
  constructor
  · rintro ⟨turn, hchain, flag, number, hflag, form, hform, ⟨rfl, rfl, rfl⟩, rfl⟩
    exact ⟨hform, turn.node, hchain, hflag⟩
  · rintro ⟨hform, node, hchain, hflag⟩
    exact ⟨⟨steps, node⟩, hchain, flag, number, hflag, form, hform, ⟨rfl, rfl, rfl⟩, rfl⟩

/-- The uses are in order, but for those that have occurred before. -/
theorem inOrder_flagUses :
    InOrder (fun entry other : FlagUse × String =>
      other.1 = entry.1 ∨ entry.1.Precedes root other.1) root.flagUses := by
  refine inOrder_walk.flatMap ?_ ?_
  · intro turn _
    refine (inOrder_zipIdx _).flatMap ?_ ?_
    · intro flag _
      refine .of_pairwise (List.pairwise_map.mpr ?_)
      exact List.pairwise_of_forall fun _ _ => .inr (.inl rfl)
    · rintro flag - flag' - hlt entry hentry entry' hentry'
      obtain ⟨form, -, rfl⟩ := List.mem_map.mp hentry
      obtain ⟨form', -, rfl⟩ := List.mem_map.mp hentry'
      exact .inr (.inr ⟨rfl, hlt⟩)
  · rintro turn - turn' - hbefore entry hentry entry' hentry'
    have hsteps : ∀ {turn : Turn} {entry}, entry ∈ turn.flagUses → entry.1.steps = turn.steps := by
      intro turn entry hentry
      obtain ⟨flag, -, hentry⟩ := List.mem_flatMap.mp hentry
      obtain ⟨form, -, rfl⟩ := List.mem_map.mp hentry
      rfl
    refine .inr (.inl ?_)
    rw [hsteps hentry, hsteps hentry']
    exact hbefore

/-! ### One record for each form at each place -/

/-- No two records have the same key. -/
theorem nodup_flagParams_key : (root.model.flagParams.map FlagParam.key).Nodup := by
  rw [flagParams_eq]
  exact FlagParam.nodup_key_firstPerKey _

/-- The key of a record is the place of its use and the form. -/
theorem key_record_iff {use : FlagUse} {path : ContextPath} {form form' : String} :
    (use.record form').key = (path, form) ↔ stepsPath use.steps = path ∧ form' = form := by
  simp [FlagUse.record, FlagParam.key]

/-- Where no flag has the form there is no record. -/
theorem filter_flagParams_of_not_exists {path : ContextPath} {form : String}
    (h : ¬∃ use, FlagUse.IsAt root path form use) :
    root.model.flagParams.filter (·.key = (path, form)) = [] := by
  rw [flagParams_eq, FlagParam.filter_firstPerKey, if_neg List.not_mem_nil, List.find?_map]
  have hnone : root.flagUses.find? ((·.key = (path, form)) ∘ fun entry => entry.1.record entry.2) =
      none := by
    rw [List.find?_eq_none]
    rintro ⟨use, form'⟩ huse hkey
    obtain ⟨rfl, rfl⟩ := key_record_iff.mp (of_decide_eq_true hkey)
    exact h ⟨use, mem_flagUses_iff.mp huse⟩
  rw [hnone]
  rfl

/-- Where a flag has the form the one record is that of the first use. -/
theorem exists_isFirstAt {path : ContextPath} {form : String}
    (h : ∃ use, FlagUse.IsAt root path form use) :
    ∃ use, FlagUse.IsFirstAt root path form use ∧
      root.model.flagParams.filter (·.key = (path, form)) = [use.record form] := by
  rw [flagParams_eq, FlagParam.filter_firstPerKey, if_neg List.not_mem_nil, List.find?_map]
  cases hfound : root.flagUses.find?
      ((·.key = (path, form)) ∘ fun entry => entry.1.record entry.2) with
  | none =>
    obtain ⟨use, huse⟩ := h
    rw [List.find?_eq_none] at hfound
    have hmem := mem_flagUses_iff.mpr (huse.1.symm ▸ huse)
    exact absurd (decide_eq_true (key_record_iff.mpr ⟨huse.1, rfl⟩)) (hfound _ hmem)
  | some entry =>
    obtain ⟨use, form'⟩ := entry
    obtain ⟨hkey, pre, post, hsplit, hpre⟩ := List.find?_eq_some_iff_append.mp hfound
    obtain ⟨rfl, rfl⟩ := key_record_iff.mp (of_decide_eq_true hkey)
    have hmem : (use, form') ∈ root.flagUses := hsplit ▸ List.mem_append_right _ List.mem_cons_self
    refine ⟨use, ⟨mem_flagUses_iff.mp hmem, ?_⟩, rfl⟩
    intro other hother
    -- nothing with this key stands before the first entry, so the other use comes later
    have hothers := mem_flagUses_iff.mpr (hother.1.symm ▸ hother)
    rcases inOrder_flagUses pre _ post hsplit _ hothers with hbefore | heq | hlater
    · have hlacks := hpre _ hbefore
      simp [FlagUse.record, FlagParam.key, hother.1] at hlacks
    · exact .inl (congrArg Prod.fst heq)
    · exact hlater

/-- The key of a record is the place and the form of some use. -/
theorem exists_isAt_of_mem_flagParams {param : FlagParam} (h : param ∈ root.model.flagParams) :
    ∃ use, FlagUse.IsAt root param.path param.form use := by
  by_contra hnone
  have hmem : param ∈ root.model.flagParams.filter (·.key = (param.path, param.form)) :=
    List.mem_filter.mpr ⟨h, decide_eq_true rfl⟩
  rw [filter_flagParams_of_not_exists hnone] at hmem
  exact List.not_mem_nil hmem

/-- Each use has its record. -/
theorem exists_mem_flagParams_of_isAt {path : ContextPath} {form : String} {use : FlagUse}
    (h : use.IsAt root path form) : ∃ param ∈ root.model.flagParams, param.key = (path, form) := by
  obtain ⟨first, -, hfilter⟩ := exists_isFirstAt ⟨use, h⟩
  have hmem : first.record form ∈ root.model.flagParams.filter (·.key = (path, form)) := by
    rw [hfilter]
    exact List.mem_singleton_self _
  obtain ⟨hmem, hkey⟩ := List.mem_filter.mp hmem
  exact ⟨_, hmem, of_decide_eq_true hkey⟩

/-! ### Records and options -/

/-- The form of a record is offered at its place. -/
theorem exists_options?_of_mem_flagParams {param : FlagParam} (h : param ∈ root.model.flagParams) :
    ∃ options, root.model.options? param.path = some options ∧ param.form ∈ options := by
  obtain ⟨use, hpath, hform, node, hchain, hflag⟩ := exists_isAt_of_mem_flagParams h
  obtain ⟨options, hoptions⟩ := exists_options?_iff.mpr ⟨use.steps, node, hchain, hpath⟩
  refine ⟨options, hoptions, (mem_options?_iff hoptions).mpr ⟨use.steps, node, hchain, hpath, ?_⟩⟩
  exact .inl ⟨use.flag, List.mem_of_getElem? hflag, hform⟩

/-- What is offered at a place is the form of a record or the name of a subcommand. -/
theorem mem_flagParams_or_hasName {path : ContextPath} {options : List String}
    (h : root.model.options? path = some options) {option : String} (hoption : option ∈ options) :
    (∃ param ∈ root.model.flagParams, param.key = (path, option)) ∨
      ∃ steps node, AliasChain root steps node ∧ stepsPath steps = path ∧
        ∃ sub ∈ node.subcommands, sub.HasName option := by
  obtain ⟨steps, node, hchain, hpath, hoffers⟩ := (mem_options?_iff h).mp hoption
  rcases hoffers with ⟨flag, hflag, hform⟩ | hsub
  · obtain ⟨number, hnumber⟩ := List.mem_iff_getElem?.mp hflag
    have huse : FlagUse.IsAt root path option ⟨steps, number, flag⟩ :=
      ⟨hpath, hform, node, hchain, hnumber⟩
    exact .inl (exists_mem_flagParams_of_isAt huse)
  · exact .inr ⟨steps, node, hchain, hpath, hsub⟩

end uses

/-- A value is required of every flag that is no switch. -/
theorem FlagParam.requirement_eq_required_iff {param : FlagParam} :
    param.requirement = .required ↔ param.kind ≠ .switch := by
  rw [requirement]
  cases param.kind <;> decide

/-- **The flag records of a model are complete, unique and those of the first uses.** For every
tree, sound or not: a place and a form have one record if some flag has the form at the end of some
chain to the place, and none if there is no such flag. The record has the kind of the first of these
flags; a value is required unless the flag is a switch, and the values are those of the flag if it
is a choice. What has a record is offered at its place, and all that is offered there besides are
names of subcommands. -/
theorem flagParams_spec (root : Command) :
    (∀ path form, (∃ use, FlagUse.IsAt root path form use) → ∃ use param,
      (∀ other, FlagUse.IsFirstAt root path form other ↔ other = use) ∧
        root.model.flagParams.filter (·.key = (path, form)) = [param] ∧
        param.kind = use.flag.kind ∧
        (param.requirement = .required ↔ use.flag.kind ≠ .switch) ∧
        param.values = if use.flag.kind = .choice then use.flag.values else []) ∧
    (∀ path form, (¬∃ use, FlagUse.IsAt root path form use) →
      root.model.flagParams.filter (·.key = (path, form)) = []) ∧
    (∀ param ∈ root.model.flagParams,
      ∃ options, root.model.options? param.path = some options ∧ param.form ∈ options) ∧
    (∀ path options, root.model.options? path = some options → ∀ option ∈ options,
      (∃ param ∈ root.model.flagParams, param.key = (path, option)) ∨
        ∃ steps node, AliasChain root steps node ∧ stepsPath steps = path ∧
          ∃ sub ∈ node.subcommands, sub.HasName option) := by
  refine ⟨?_, fun _ _ => filter_flagParams_of_not_exists,
    fun _ => exists_options?_of_mem_flagParams,
    fun _ _ hoptions _ hoption => mem_flagParams_or_hasName hoptions hoption⟩
  intro path form huse
  obtain ⟨use, hfirst, hfilter⟩ := exists_isFirstAt huse
  refine ⟨use, use.record form, fun other => ⟨hfirst.unique, ?_⟩, hfilter, rfl, ?_, rfl⟩
  · rintro rfl
    exact hfirst
  · exact FlagParam.requirement_eq_required_iff

/-- A short name that begins with a dash may give the form of a long one. Of two such flags of one
command the one that is declared first has the record. -/
example :
    let flags : List Flag := [.text none (some "a"), .switch (some "-a") none]
    (⟨"p", none, flags, []⟩ : Command).model.flagParams = [⟨.root, "--a", .text, []⟩] := by
  cbv

end ShellCompletion
