import ShellCompletion.Proofs.Model.Contexts

/-!
# What is offered at a place

A model keeps the options of the root apart from those of the other places. Asked for a place it
makes no difference: there are options exactly where some chain leads (`exists_options?_iff`), the
empty chain leading to the root, and what is offered there is what the ends of all chains to the
place offer (`mem_options?_iff`). The list of options has an order of its own, so it is settled by
what is in it (`options?_eq_of_mem_iff`).
-/

namespace ShellCompletion

/-- Only no steps are spelled like the root. -/
theorem stepsPath_eq_root_iff {steps : List (Nat × String)} :
    stepsPath steps = .root ↔ steps = [] := by
  constructor
  · intro h
    cases steps with
    | nil => rfl
    | cons step rest =>
      have hlt := root_lt_stepsPath (List.cons_ne_nil step rest)
      rw [h] at hlt
      exact absurd hlt (String.lt_irrefl _)
  · rintro rfl
    exact stepsPath_nil

section options

variable {root : Command}

/-- There are options exactly where some chain leads. -/
theorem exists_options?_iff {path : ContextPath} :
    (∃ options, root.model.options? path = some options) ↔
      ∃ steps node, AliasChain root steps node ∧ stepsPath steps = path := by
  rw [Model.options?]
  split
  next hroot =>
    obtain rfl := ContextPath.isRoot_iff.mp hroot
    exact ⟨fun _ => ⟨[], root, .root, stepsPath_nil⟩, fun _ => ⟨_, rfl⟩⟩
  next hroot =>
    rw [ContextPath.isRoot_iff] at hroot
    have hmem : (∃ options, root.model.contexts[path]?.map (·.toList) = some options) ↔
        path ∈ root.model.contexts := by
      rw [Std.TreeMap.mem_iff_isSome_getElem?, ← Option.isSome_iff_exists, Option.isSome_map]
    rw [hmem, mem_model_contexts]
    constructor
    · rintro ⟨steps, node, -, hchain, hpath⟩
      exact ⟨steps, node, hchain, hpath⟩
    · rintro ⟨steps, node, hchain, rfl⟩
      exact ⟨steps, node, mt stepsPath_eq_root_iff.mpr hroot, hchain, rfl⟩

/-- The options of a place are the list of a set, and in the set is what the ends of the chains to
the place offer. -/
theorem exists_optionSet {path : ContextPath} {options : List String}
    (h : root.model.options? path = some options) :
    ∃ set : OptionSet, options = set.toList ∧ ∀ option, option ∈ set ↔
      ∃ steps node, AliasChain root steps node ∧ stepsPath steps = path ∧ node.Offers option := by
  rw [Model.options?] at h
  split at h
  next hroot =>
    obtain rfl := ContextPath.isRoot_iff.mp hroot
    refine ⟨_, (Option.some.inj h).symm, fun option => ?_⟩
    rw [mem_model_rootOptions]
    constructor
    · intro hoffers
      exact ⟨[], root, .root, stepsPath_nil, hoffers⟩
    · rintro ⟨steps, node, hchain, hpath, hoffers⟩
      rwa [hchain.eq_root_of_nil (stepsPath_eq_root_iff.mp hpath)] at hoffers
  next hroot =>
    rw [ContextPath.isRoot_iff] at hroot
    obtain ⟨set, hset, rfl⟩ := Option.map_eq_some_iff.mp h
    refine ⟨set, rfl, fun option => ?_⟩
    have hoffersAt : option ∈ set ↔ OffersAt root.model.contexts path option := by
      simp [OffersAt, hset]
    rw [hoffersAt, offersAt_model_contexts]
    constructor
    · rintro ⟨steps, node, -, hoffers⟩
      exact ⟨steps, node, hoffers⟩
    · rintro ⟨steps, node, hchain, rfl, hoffers⟩
      exact ⟨steps, node, mt stepsPath_eq_root_iff.mpr hroot, hchain, rfl, hoffers⟩

/-- A place offers what the ends of the chains to it offer. -/
theorem mem_options?_iff {path : ContextPath} {options : List String}
    (h : root.model.options? path = some options) {option : String} :
    option ∈ options ↔
      ∃ steps node, AliasChain root steps node ∧ stepsPath steps = path ∧ node.Offers option := by
  obtain ⟨set, rfl, hset⟩ := exists_optionSet h
  rw [Std.TreeSet.mem_toList, hset]

/-- Two places that offer the same have the same list of options. -/
theorem options?_eq_of_mem_iff {path path' : ContextPath} {options options' : List String}
    (h : root.model.options? path = some options) (h' : root.model.options? path' = some options')
    (hmem : ∀ option, option ∈ options ↔ option ∈ options') : options = options' := by
  obtain ⟨set, rfl, -⟩ := exists_optionSet h
  obtain ⟨set', rfl, -⟩ := exists_optionSet h'
  simp only [Std.TreeSet.mem_toList] at hmem
  exact (Std.TreeSet.equiv_iff_forall_mem_iff.mpr hmem).toList_eq

end options

end ShellCompletion
