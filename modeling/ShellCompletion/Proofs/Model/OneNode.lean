import ShellCompletion.Proofs.Command.Names
import ShellCompletion.Proofs.Command.Siblings
import ShellCompletion.Proofs.Model.Options

/-!
# Places that belong to one node

A place is spelled by joining words with slashes, and the model has one list of options for each
spelling. Where the words have no slashes in them the spelling gives the words back, and where the
tree passes the check the words lead to one node only. So each place belongs to one node, under each
of its names, and offers just what that node offers.

Main statement: `place_of_one_node`. The check lets slashes pass in names, and then two nodes may
share a place: `slash_merges_nodes`.
-/

namespace ShellCompletion

section chains

variable {root node node' : Command} {steps steps' : List (Nat × String)}

/-- Without slashes in its names a checked tree has only one chain to a place. -/
theorem AliasChain.eq_of_stepsPath_eq (h : root.check = .ok ()) (hfree : root.SlashFree)
    (hchain : AliasChain root steps node) (hchain' : AliasChain root steps' node')
    (hpath : stepsPath steps = stepsPath steps') : steps = steps' ∧ node = node' := by
  have hslash : ∀ {steps node}, AliasChain root steps node →
      ∀ word ∈ steps.map (·.2), '/' ∉ word.toList := by
    intro steps node hchain word hword
    obtain ⟨step, hstep, rfl⟩ := List.mem_map.mp hword
    exact hfree steps node hchain step hstep
  have hwords := ContextPath.spelled_injective (hslash hchain) (hslash hchain') hpath
  exact hchain.unique h hchain' hwords

/-- Without slashes in the names of a checked tree, the place of a chain offers what its end
offers. -/
theorem AliasChain.exists_options? (h : root.check = .ok ()) (hfree : root.SlashFree)
    (hchain : AliasChain root steps node) :
    ∃ options, root.model.options? (stepsPath steps) = some options ∧
      ∀ option, option ∈ options ↔ node.Offers option := by
  obtain ⟨options, hoptions⟩ := exists_options?_iff.mpr ⟨steps, node, hchain, rfl⟩
  refine ⟨options, hoptions, fun option => ?_⟩
  rw [mem_options?_iff hoptions]
  constructor
  · rintro ⟨steps', node', hchain', hpath, hoffers⟩
    obtain ⟨-, rfl⟩ := hchain'.eq_of_stepsPath_eq h hfree hchain hpath
    exact hoffers
  · intro hoffers
    exact ⟨steps, node, hchain, rfl, hoffers⟩

end chains

/-- **A place belongs to one node**, in a tree that passes the check and has no slash in a name: the
chains to it end at the same node, it offers exactly what that node offers, and whatever names lead
to the same node lead to places with the same options. -/
theorem place_of_one_node (root : Command) (h : root.check = .ok ()) (hfree : root.SlashFree) :
    (∀ steps steps' node node', AliasChain root steps node → AliasChain root steps' node' →
      stepsPath steps = stepsPath steps' → steps.map (·.1) = steps'.map (·.1) ∧ node = node') ∧
    (∀ path options, root.model.options? path = some options →
      ∃ steps node, AliasChain root steps node ∧ stepsPath steps = path ∧
        ∀ option, option ∈ options ↔ node.Offers option) ∧
    (∀ steps steps' node node', AliasChain root steps node → AliasChain root steps' node' →
      steps.map (·.1) = steps'.map (·.1) → ∃ options,
        root.model.options? (stepsPath steps) = some options ∧
          root.model.options? (stepsPath steps') = some options) := by
  refine ⟨?_, ?_, ?_⟩
  · intro steps steps' node node' hchain hchain' hpath
    obtain ⟨rfl, rfl⟩ := hchain.eq_of_stepsPath_eq h hfree hchain' hpath
    exact ⟨rfl, rfl⟩
  · intro path options hoptions
    obtain ⟨steps, node, hchain, rfl⟩ := exists_options?_iff.mp ⟨options, hoptions⟩
    obtain ⟨options', hoptions', hoffers⟩ := hchain.exists_options? h hfree
    obtain rfl := Option.some.inj (hoptions.symm.trans hoptions')
    exact ⟨steps, node, hchain, rfl, hoffers⟩
  · intro steps steps' node node' hchain hchain' hsame
    obtain rfl := hchain.node_eq_of_map_fst_eq hchain' hsame
    obtain ⟨options, hoptions, hoffers⟩ := hchain.exists_options? h hfree
    obtain ⟨options', hoptions', hoffers'⟩ := hchain'.exists_options? h hfree
    obtain rfl := options?_eq_of_mem_iff hoptions hoptions' fun option =>
      (hoffers option).trans (hoffers' option).symm
    exact ⟨options, hoptions, hoptions'⟩

/-- A command with an alias offers the same under both names, down to its subcommands. -/
theorem place_of_alias :
    let sub : Command :=
      { name := "a", short := some "x", flags := [.switch none (some "f")],
        subcommands := [{ name := "b" }] }
    let root : Command := { name := "p", subcommands := [sub] }
    root.check = .ok () ∧ root.SlashFree ∧ AliasChain root [(0, "a")] sub ∧
      AliasChain root [(0, "x")] sub ∧
      ∃ options, root.model.options? ⟨"/a/"⟩ = some options ∧
        root.model.options? ⟨"/x/"⟩ = some options := by
  intro sub root
  have hcheck : root.check = .ok () := by decide
  have hlack : root.NamesLack ['/'] := by decide
  have hname : AliasChain root ([] ++ [(0, "a")]) sub := .step .root rfl ⟨by decide, .inl rfl⟩
  have halias : AliasChain root ([] ++ [(0, "x")]) sub := .step .root rfl ⟨by decide, .inr rfl⟩
  exact ⟨hcheck, hlack.slashFree, hname, halias,
    (place_of_one_node root hcheck hlack.slashFree).2.2 _ _ sub sub hname halias rfl⟩

/-- A name with a slash in it may share its place with a command two levels down: both `a/b` and the
child `b` of `a` have the place `/a/b/`. -/
theorem slash_merges_nodes :
    let deep : Command := { name := "b", flags := [.switch none (some "deep")] }
    let wide : Command := { name := "a/b", flags := [.switch none (some "wide")] }
    let parent : Command := { name := "a", subcommands := [deep] }
    let root : Command := { name := "p", subcommands := [parent, wide] }
    root.check = .ok () ∧ AliasChain root [(0, "a"), (0, "b")] deep ∧
      AliasChain root [(1, "a/b")] wide ∧
      stepsPath [(0, "a"), (0, "b")] = stepsPath [(1, "a/b")] ∧
      ∃ options, root.model.options? ⟨"/a/b/"⟩ = some options ∧
        "--deep" ∈ options ∧ "--wide" ∈ options := by
  intro deep wide parent root
  have hparent : AliasChain root ([] ++ [(0, "a")]) parent := .step .root rfl ⟨by decide, .inl rfl⟩
  have hdeep : AliasChain root ([] ++ [(0, "a")] ++ [(0, "b")]) deep :=
    hparent.step rfl ⟨by decide, .inl rfl⟩
  have hwide : AliasChain root ([] ++ [(1, "a/b")]) wide := .step .root rfl ⟨by decide, .inl rfl⟩
  obtain ⟨options, hoptions⟩ := exists_options?_iff.mpr ⟨_, deep, hdeep, rfl⟩
  refine ⟨by decide, hdeep, hwide, by decide, options, hoptions, ?_, ?_⟩
  · refine (mem_options?_iff hoptions).mpr ⟨_, deep, hdeep, rfl, ?_⟩
    exact Command.mem_directOptions.mp (by decide)
  · refine (mem_options?_iff hoptions).mpr ⟨_, wide, hwide, by decide, ?_⟩
    exact Command.mem_directOptions.mp (by decide)

end ShellCompletion
