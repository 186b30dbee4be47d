import ShellCompletion.Model.Collect
import ShellCompletion.Proofs.Model.Chain
import ShellCompletion.Proofs.Text.ByteOrder

/-!
# The places of a model and their options

A model is built by adding one visit after the other. Here it is read off the tree instead: the
places are the spellings of the alias chains that are not empty, and a place offers what the ends of
all chains with that spelling offer.

* **One visit** (`mem_addContext`, `offersAt_addContext`) and, by induction, all of them
  (`mem_foldl_addContext`, `offersAt_foldl_addContext`).
* **The list of the places** (`allContexts_increasing`): the root stands first, and the texts of
  the places increase byte by byte. Each stands there with its options (`mem_allContexts_iff`).

Main statement: `model_contexts_spec`, for every tree.
-/

namespace ShellCompletion

/-! ### Adding visits -/

/-- The option is kept for the place. -/
def OffersAt (contexts : Std.TreeMap ContextPath OptionSet) (path : ContextPath)
    (option : String) : Prop :=
  ∃ options, contexts[path]? = some options ∧ option ∈ options

namespace Visit

variable {contexts : Std.TreeMap ContextPath OptionSet}

/-- A visit adds its options to those of its place, and no other place changes. -/
theorem getElem?_addContext (visit : Visit) (path : ContextPath) :
    (addContext contexts visit)[path]? =
      if visit.path = path then
        some ((contexts[path]?.getD {}).insertMany visit.command.directOptions)
      else contexts[path]? := by
  rw [addContext, Std.TreeMap.getElem?_alter]
  simp only [Std.LawfulEqOrd.compare_eq_iff_eq]
  split
  next h => rw [h]
  next => rfl

/-- A visit adds its place. -/
theorem mem_addContext {visit : Visit} {path : ContextPath} :
    path ∈ addContext contexts visit ↔ visit.path = path ∨ path ∈ contexts := by
  rw [Std.TreeMap.mem_iff_isSome_getElem?, Std.TreeMap.mem_iff_isSome_getElem?,
    getElem?_addContext]
  split
  next h => simp [h]
  next h => simp [h]

/-- A visit adds what its command offers to its place. -/
theorem offersAt_addContext {visit : Visit} {path : ContextPath} {option : String} :
    OffersAt (addContext contexts visit) path option ↔
      visit.path = path ∧ visit.command.Offers option ∨ OffersAt contexts path option := by
  unfold OffersAt
  rw [getElem?_addContext]
  split
  next h =>
    simp only [Option.some.injEq, exists_eq_left', Std.TreeSet.mem_insertMany_list,
      List.contains_iff_mem, Command.mem_directOptions, h, true_and]
    cases contexts[path]? with
    | none => simp
    | some options => simp [or_comm]
  next h => simp only [h, false_and, false_or]

/-- Visits in a row add their places. -/
theorem mem_foldl_addContext {visits : List Visit} {path : ContextPath} :
    path ∈ visits.foldl addContext contexts ↔
      (∃ v ∈ visits, v.path = path) ∨ path ∈ contexts := by
  induction visits generalizing contexts with
  | nil => simp
  | cons visit rest ih =>
    rw [List.foldl_cons, ih, mem_addContext]
    simp only [List.mem_cons, exists_eq_or_imp]
    exact or_left_comm.trans or_assoc.symm

/-- Visits in a row add what their commands offer. -/
theorem offersAt_foldl_addContext {visits : List Visit} {path : ContextPath} {option : String} :
    OffersAt (visits.foldl addContext contexts) path option ↔
      (∃ v ∈ visits, v.path = path ∧ v.command.Offers option) ∨ OffersAt contexts path option := by
  induction visits generalizing contexts with
  | nil => simp
  | cons visit rest ih =>
    rw [List.foldl_cons, ih, offersAt_addContext]
    simp only [List.mem_cons, exists_eq_or_imp]
    exact or_left_comm.trans or_assoc.symm

end Visit

/-! ### The model of a tree -/

section model

variable {root : Command}

/-- The places of a model are the spellings of the chains that are not empty. -/
theorem mem_model_contexts {path : ContextPath} :
    path ∈ root.model.contexts ↔
      ∃ steps node, steps ≠ [] ∧ AliasChain root steps node ∧ stepsPath steps = path := by
  have hfold : path ∈ root.model.contexts ↔ ∃ v ∈ root.visits, v.path = path := by
    rw [Command.model, Visit.mem_foldl_addContext]
    simp
  rw [hfold]
  constructor
  · rintro ⟨v, hv, rfl⟩
    obtain ⟨steps, hne, hchain, hpath⟩ := mem_visits_iff.mp hv
    exact ⟨steps, v.command, hne, hchain, hpath.symm⟩
  · rintro ⟨steps, node, hne, hchain, rfl⟩
    exact ⟨_, hchain.mem_visits hne, rfl⟩

/-- A place offers what the ends of the chains with its spelling offer. -/
theorem offersAt_model_contexts {path : ContextPath} {option : String} :
    OffersAt root.model.contexts path option ↔
      ∃ steps node, steps ≠ [] ∧ AliasChain root steps node ∧ stepsPath steps = path ∧
        node.Offers option := by
  have hfold : OffersAt root.model.contexts path option ↔
      ∃ v ∈ root.visits, v.path = path ∧ v.command.Offers option := by
    rw [Command.model, Visit.offersAt_foldl_addContext]
    simp [OffersAt]
  rw [hfold]
  constructor
  · rintro ⟨v, hv, rfl, hoffers⟩
    obtain ⟨steps, hne, hchain, hpath⟩ := mem_visits_iff.mp hv
    exact ⟨steps, v.command, hne, hchain, hpath.symm, hoffers⟩
  · rintro ⟨steps, node, hne, hchain, rfl, hoffers⟩
    exact ⟨_, hchain.mem_visits hne, rfl, hoffers⟩

/-- The root keeps what the root of the tree offers. -/
theorem mem_model_rootOptions {option : String} :
    option ∈ root.model.rootOptions ↔ root.Offers option := by
  rw [Command.model, Std.TreeSet.mem_ofList, List.contains_iff_mem, Command.mem_directOptions]

/-! ### The list of the places -/

/-- The root comes before the spelling of every chain that is not empty. -/
theorem root_lt_stepsPath {steps : List (Nat × String)} (h : steps ≠ []) :
    ContextPath.root.text < (stepsPath steps).text := by
  obtain ⟨step, rest, rfl⟩ := List.exists_cons_of_ne_nil h
  have hlist : (stepsPath (step :: rest)).text.toList =
      '/' :: (step.2.toList ++ ['/'] ++ (rest.map (·.2)).flatMap fun name =>
        name.toList ++ ['/']) := by
    rw [stepsPath, ContextPath.toList_spelled, List.map_cons, List.flatMap_cons]
  show ['/'] < (stepsPath (step :: rest)).text.toList
  rw [hlist]
  refine List.Lex.cons ?_
  cases step.2.toList with
  | nil => exact List.Lex.nil
  | cons c cs => exact List.Lex.nil

/-- The root is none of the other places. -/
theorem root_not_mem_model_contexts : ContextPath.root ∉ root.model.contexts := by
  intro h
  obtain ⟨steps, node, hne, -, hpath⟩ := mem_model_contexts.mp h
  have hlt := root_lt_stepsPath hne
  rw [hpath] at hlt
  exact String.lt_irrefl _ hlt

/-- Only the root is spelled like the root. -/
theorem ContextPath.isRoot_iff {path : ContextPath} : path.isRoot = true ↔ path = .root := by
  rw [isRoot, beq_iff_eq]
  exact ⟨fun h => congrArg mk h, congrArg text⟩

/-- The places are listed with their options. -/
theorem mem_allContexts_iff {path : ContextPath} {options : List String} :
    (path, options) ∈ root.model.allContexts ↔ root.model.options? path = some options := by
  have hlisted : ∀ entry ∈ root.model.contexts.toList,
      root.model.contexts[entry.1]? = some entry.2 ∧ entry.1 ≠ .root := by
    intro entry hentry
    have hsome := Std.TreeMap.mem_toList_iff_getElem?_eq_some.mp hentry
    have hmem : entry.1 ∈ root.model.contexts := by
      rw [Std.TreeMap.mem_iff_isSome_getElem?, hsome, Option.isSome_some]
    refine ⟨hsome, fun hroot => ?_⟩
    rw [hroot] at hmem
    exact root_not_mem_model_contexts hmem
  rw [Model.allContexts, List.mem_cons, List.mem_map, Model.options?]
  split
  next hroot =>
    obtain rfl := ContextPath.isRoot_iff.mp hroot
    constructor
    · rintro (heq | ⟨entry, hentry, heq⟩)
      · rw [(Prod.mk.inj heq).2]
      · exact absurd (Prod.mk.inj heq).1 (hlisted entry hentry).2
    · intro heq
      rw [Option.some.inj heq]
      exact .inl rfl
  next hroot =>
    rw [ContextPath.isRoot_iff] at hroot
    constructor
    · rintro (heq | ⟨entry, hentry, heq⟩)
      · exact absurd (Prod.mk.inj heq).1 hroot
      · obtain ⟨rfl, rfl⟩ := Prod.mk.inj heq
        rw [(hlisted entry hentry).1, Option.map_some]
    · intro heq
      obtain ⟨set, hset, rfl⟩ := Option.map_eq_some_iff.mp heq
      exact .inr ⟨(path, set), Std.TreeMap.mem_toList_iff_getElem?_eq_some.mpr hset, rfl⟩

/-- Places are compared by their texts. -/
theorem ContextPath.text_lt_of_compare {a b : ContextPath} (h : compare a b = .lt) :
    a.text < b.text :=
  compareOfLessAndEq_eq_lt.mp h

/-- The places are listed in the order of their bytes, the root first. -/
theorem allContexts_increasing :
    root.model.allContexts.Pairwise fun a b => Text.bytes a.1.text < Text.bytes b.1.text := by
  rw [Model.allContexts, List.pairwise_cons]
  constructor
  · intro place hplace
    obtain ⟨entry, hentry, rfl⟩ := List.mem_map.mp hplace
    have hsome := Std.TreeMap.mem_toList_iff_getElem?_eq_some.mp hentry
    have hkey : entry.1 ∈ root.model.contexts := by
      rw [Std.TreeMap.mem_iff_isSome_getElem?, hsome, Option.isSome_some]
    obtain ⟨steps, node, hne, -, hpath⟩ := mem_model_contexts.mp hkey
    have hlt := root_lt_stepsPath hne
    rw [hpath] at hlt
    exact Text.bytes_lt_bytes hlt
  · rw [List.pairwise_map]
    refine Std.TreeMap.ordered_keys_toList.imp ?_
    intro a b hlt
    exact Text.bytes_lt_bytes (ContextPath.text_lt_of_compare hlt)

end model

/-- **The model is what the chains say.** For every tree, sound or not: the places besides the root
are the spellings of the chains that are not empty; each keeps exactly what the ends of the chains
with its spelling offer; the root keeps what the root of the tree offers and is no other place; and
all places are listed in the order of their bytes, the root first, each with its options. -/
theorem model_contexts_spec (root : Command) :
    (∀ path, path ∈ root.model.contexts ↔
      ∃ steps node, steps ≠ [] ∧ AliasChain root steps node ∧ stepsPath steps = path) ∧
    (∀ path option,
      (∃ options, root.model.contexts[path]? = some options ∧ option ∈ options) ↔
        ∃ steps node, steps ≠ [] ∧ AliasChain root steps node ∧ stepsPath steps = path ∧
          node.Offers option) ∧
    (∀ option, option ∈ root.model.rootOptions ↔ root.Offers option) ∧
    ContextPath.root ∉ root.model.contexts ∧
    root.model.allContexts.head? = some (.root, root.model.rootOptions.toList) ∧
    (root.model.allContexts.Pairwise fun a b => Text.bytes a.1.text < Text.bytes b.1.text) ∧
    ∀ path options,
      (path, options) ∈ root.model.allContexts ↔ root.model.options? path = some options :=
  ⟨fun _ => mem_model_contexts, fun _ _ => offersAt_model_contexts,
    fun _ => mem_model_rootOptions, root_not_mem_model_contexts, rfl, allContexts_increasing,
    fun _ _ => mem_allContexts_iff⟩

end ShellCompletion
