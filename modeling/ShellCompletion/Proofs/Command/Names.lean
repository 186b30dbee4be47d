import ShellCompletion.Proofs.Model.Chain

/-!
# The characters in the names of a tree

Some properties of a tree hold as long as certain characters occur in none of its names. Whether
they do can be computed from the list of all commands below the root (`Command.descendants`), which
has the ends of all alias chains in it (`AliasChain.mem_descendants`).
-/

namespace ShellCompletion

namespace Command

mutual

/-- The commands below a command, each of them before those below it. -/
def descendants : Command → List Command
  | ⟨_, _, _, subs⟩ => descendantsOfAll subs

/-- The commands of a list, each of them before those below it. -/
def descendantsOfAll : List Command → List Command
  | [] => []
  | sub :: rest => sub :: (sub.descendants ++ descendantsOfAll rest)

end

/-- No name of a command below the root has one of the characters in it. -/
def NamesLack (root : Command) (chars : List Char) : Prop :=
  ∀ sub ∈ root.descendants, ∀ name ∈ sub.typedNames, ∀ c ∈ name.toList, c ∉ chars

/-- No form of a flag of the root or of a command below it has one of the characters in it. -/
def FormsLack (root : Command) (chars : List Char) : Prop :=
  ∀ node ∈ root :: root.descendants, ∀ flag ∈ node.flags, ∀ form ∈ flag.typedForms,
    ∀ c ∈ form.toList, c ∉ chars

-- Spelled out, since the quantifier over characters has an instance that tries every character.
instance (root : Command) (chars : List Char) : Decidable (root.NamesLack chars) :=
  decidable_of_iff
    (root.descendants.all fun sub => sub.typedNames.all fun name => name.toList.all (· ∉ chars))
    (by simp only [NamesLack, List.all_eq_true, decide_eq_true_eq])

instance (root : Command) (chars : List Char) : Decidable (root.FormsLack chars) :=
  decidable_of_iff
    ((root :: root.descendants).all fun node => node.flags.all fun flag =>
      flag.typedForms.all fun form => form.toList.all (· ∉ chars))
    (by simp only [FormsLack, List.all_eq_true, decide_eq_true_eq])

/-- The descendants of a list have its entries among them, and the descendants of each. -/
theorem mem_descendantsOfAll {subs : List Command} {sub : Command} (h : sub ∈ subs) :
    sub ∈ descendantsOfAll subs ∧ sub.descendants ⊆ descendantsOfAll subs := by
  induction subs with
  | nil => exact absurd h List.not_mem_nil
  | cons first rest ih =>
    rw [descendantsOfAll]
    rcases List.mem_cons.mp h with rfl | h
    · refine ⟨List.mem_cons_self, fun d hd => ?_⟩
      exact List.mem_cons_of_mem _ (List.mem_append_left _ hd)
    · obtain ⟨hmem, hsubset⟩ := ih h
      refine ⟨List.mem_cons_of_mem _ (List.mem_append_right _ hmem), fun d hd => ?_⟩
      exact List.mem_cons_of_mem _ (List.mem_append_right _ (hsubset hd))

/-- A subcommand is below its parent, and so is all that is below it. -/
theorem mem_descendants_of_mem {command sub : Command} (h : sub ∈ command.subcommands) :
    sub ∈ command.descendants ∧ sub.descendants ⊆ command.descendants := by
  obtain ⟨name, short, flags, subs⟩ := command
  rw [descendants]
  exact mem_descendantsOfAll h

end Command

namespace AliasChain

variable {root node : Command} {steps : List (Nat × String)}

/-- What is below a node that a chain reaches is below the root. -/
theorem descendants_subset (h : AliasChain root steps node) :
    node.descendants ⊆ root.descendants := by
  induction h with
  | root => exact fun _ hd => hd
  | step _ hi _ ih =>
    exact fun d hd => ih ((Command.mem_descendants_of_mem (List.mem_of_getElem? hi)).2 hd)

/-- A chain ends at the root or below it. -/
theorem mem_descendants (h : AliasChain root steps node) : node ∈ root :: root.descendants := by
  cases h with
  | root => exact List.mem_cons_self
  | step hbefore hi _ =>
    have hsub := (Command.mem_descendants_of_mem (List.mem_of_getElem? hi)).1
    exact List.mem_cons_of_mem _ (hbefore.descendants_subset hsub)

/-- The words of a chain are names of commands below the root. -/
theorem exists_typedName (h : AliasChain root steps node) {step : Nat × String}
    (hstep : step ∈ steps) : ∃ sub ∈ root.descendants, step.2 ∈ sub.typedNames := by
  induction h with
  | root => exact absurd hstep List.not_mem_nil
  | @step before parent sub i name hbefore hi hname ih =>
    rcases List.mem_append.mp hstep with hstep | hstep
    · exact ih hstep
    · obtain rfl := List.mem_singleton.mp hstep
      have hsub := (Command.mem_descendants_of_mem (List.mem_of_getElem? hi)).1
      exact ⟨sub, hbefore.descendants_subset hsub, Command.mem_typedNames.mpr hname⟩

end AliasChain

/-- The words of a chain lack the characters that all names lack. -/
theorem Command.NamesLack.not_mem_word {root : Command} {chars : List Char}
    (h : root.NamesLack chars) {steps : List (Nat × String)} {node : Command}
    (hchain : AliasChain root steps node) {step : Nat × String} (hstep : step ∈ steps) {c : Char}
    (hc : c ∈ step.2.toList) : c ∉ chars := by
  obtain ⟨sub, hsub, hname⟩ := hchain.exists_typedName hstep
  exact h sub hsub step.2 hname c hc

/-- Besides slashes a place has only the characters of names in it. -/
theorem Command.NamesLack.not_mem_stepsPath {root : Command} {chars : List Char}
    (h : root.NamesLack chars) (hslash : '/' ∉ chars) {steps : List (Nat × String)}
    {node : Command} (hchain : AliasChain root steps node) {c : Char}
    (hc : c ∈ (stepsPath steps).text.toList) : c ∉ chars := by
  rw [stepsPath, ContextPath.toList_spelled, List.mem_cons, List.mem_flatMap] at hc
  rcases hc with rfl | ⟨word, hword, hc⟩
  · exact hslash
  · obtain ⟨step, hstep, rfl⟩ := List.mem_map.mp hword
    rcases List.mem_append.mp hc with hc | hc
    · exact h.not_mem_word hchain hstep hc
    · rw [List.mem_singleton.mp hc]
      exact hslash

/-- Chains have no slash in their words if names have none. -/
theorem Command.NamesLack.slashFree {root : Command} (h : root.NamesLack ['/']) :
    root.SlashFree := by
  intro steps node hchain step hstep hslash
  exact h.not_mem_word hchain hstep hslash (List.mem_singleton.mpr rfl)

end ShellCompletion
