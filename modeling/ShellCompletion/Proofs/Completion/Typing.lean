import Mathlib.Data.List.TakeWhile
import ShellCompletion.Proofs.Completion.Descent

/-!
# Typing the words of a chain

A command line that spells out an alias chain asks the model for the places of all its beginnings.
Each of them is a chain of its own, so the model knows the places, and each word leads on to the
next. What can end the descent all the same is a word with a dash in front: a command may bear such
a name, but on a command line it looks like a flag (`descend_steps`).

Main statement: `contextOf_steps_iff`, for every tree. That a name with a dash in front leads to no
place is `dashed_name_stops`.
-/

namespace ShellCompletion

section typing

variable {root node : Command}

/-- From a place on a chain, the words of the rest of the chain lead as far as none of them looks
like a flag. -/
theorem descend_steps {steps more : List (Nat × String)}
    (h : AliasChain root (steps ++ more) node) :
    root.model.descend (stepsPath steps) (more.map (·.2)) =
      stepsPath (steps ++ more.takeWhile fun step => !isFlagWord step.2) := by
  induction more generalizing steps with
  | nil => simp [Model.descend]
  | cons step rest ih =>
    obtain ⟨i, word⟩ := step
    rw [List.append_cons] at h
    rw [List.map_cons, Model.descend]
    by_cases hflag : isFlagWord word = true
    · rw [if_pos hflag, List.takeWhile_cons_of_neg (by simp [hflag]), List.append_nil]
    · have hword : root.model.hasContext ((stepsPath steps).child word) = true := by
        obtain ⟨parent, hchain⟩ := h.of_append
        exact hasContext_child_iff.mpr
          ⟨_, parent, by simp, hchain, stepsPath_append_singleton steps i word⟩
      rw [if_neg hflag, if_pos hword, List.takeWhile_cons_of_pos (by simp [hflag]),
        ← stepsPath_append_singleton steps i, ih h, List.append_assoc, List.singleton_append]

/-- A beginning of a chain that has the spelling of the chain is all of it. -/
theorem eq_of_prefix_of_stepsPath {steps all : List (Nat × String)} (h : steps <+: all)
    (hpath : stepsPath steps = stepsPath all) : steps = all := by
  obtain ⟨more, rfl⟩ := h
  cases more with
  | nil => rw [List.append_nil]
  | cons step rest =>
    have hlength := congrArg (fun path => path.text.toList.length) hpath
    simp only [stepsPath, ContextPath.toList_spelled, List.map_append, List.flatMap_append,
      List.map_cons, List.flatMap_cons, List.length_cons, List.length_append] at hlength
    omega

end typing

/-- **Typing a chain.** Behind the program, the words of a chain lead to the place of its longest
beginning in which no word looks like a flag. That is the place of the chain itself if and only if
none of its words looks like one. -/
theorem contextOf_steps_iff (root : Command) {steps : List (Nat × String)} {node : Command}
    (hchain : AliasChain root steps node) (program : String) :
    root.model.contextOf (program :: steps.map (·.2)) =
        stepsPath (steps.takeWhile fun step => !isFlagWord step.2) ∧
      (root.model.contextOf (program :: steps.map (·.2)) = stepsPath steps ↔
        ∀ step ∈ steps, isFlagWord step.2 = false) := by
  have hfrom : AliasChain root ([] ++ steps) node := hchain
  have hdescend : root.model.contextOf (program :: steps.map (·.2)) =
      stepsPath (steps.takeWhile fun step => !isFlagWord step.2) := descend_steps hfrom
  refine ⟨hdescend, ?_⟩
  rw [hdescend]
  constructor
  · intro hsame
    have hall := eq_of_prefix_of_stepsPath (List.takeWhile_prefix _) hsame
    simpa using List.takeWhile_eq_self_iff.mp hall
  · intro hnone
    rw [List.takeWhile_eq_self_iff.mpr]
    intro step hstep
    rw [hnone step hstep, Bool.not_false]

/-- Of the words of a chain with a dash in the middle, those before the dash count. -/
theorem contextOf_steps_dash :
    let leaf : Command := { name := "c" }
    let dash : Command := { name := "-b", subcommands := [leaf] }
    let sub : Command := { name := "a", short := some "x", subcommands := [dash] }
    let root : Command := { name := "p", subcommands := [sub] }
    root.check = .ok () ∧ AliasChain root [(0, "x"), (0, "-b"), (0, "c")] leaf ∧
      root.model.contextOf ["p", "x", "-b", "c"] = ⟨"/x/"⟩ := by
  intro leaf dash sub root
  have hsub : AliasChain root ([] ++ [(0, "x")]) sub := .step .root rfl ⟨by decide, .inr rfl⟩
  have hdash : AliasChain root ([] ++ [(0, "x")] ++ [(0, "-b")]) dash :=
    hsub.step rfl ⟨by decide, .inl rfl⟩
  have hleaf : AliasChain root [(0, "x"), (0, "-b"), (0, "c")] leaf :=
    hdash.step rfl ⟨by decide, .inl rfl⟩
  refine ⟨by decide, hleaf, ?_⟩
  exact (contextOf_steps_iff root hleaf "p").1.trans (by decide)

/-- A name with a dash in front passes the check, and its chain has a place, but typing it leads
nowhere. -/
theorem dashed_name_stops :
    let sub : Command := { name := "-x" }
    let root : Command := { name := "p", subcommands := [sub] }
    root.check = .ok () ∧ AliasChain root [(0, "-x")] sub ∧
      root.model.contextOf ["p", "-x"] ≠ stepsPath [(0, "-x")] := by
  intro sub root
  have hsub : AliasChain root ([] ++ [(0, "-x")]) sub := .step .root rfl ⟨by decide, .inl rfl⟩
  have hroot : root.model.contextOf ["p", "-x"] = .root := by
    rw [Model.contextOf, List.tail_cons, Model.descend, if_pos (by decide)]
  refine ⟨by decide, hsub, ?_⟩
  rw [hroot]
  decide

end ShellCompletion
