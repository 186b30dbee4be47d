import ShellCompletion.Completion.Context
import ShellCompletion.Proofs.Command.Siblings
import ShellCompletion.Proofs.Model.Contexts

/-!
# How far a word leads

A command line is followed in two ways. On the tree, each word is looked for among the children of
the node reached so far (`Command.follow`). In the model there is no node: the word is added to the
spelling of the place, and the result is looked for among the spellings of all places
(`Model.descend`). In a tree that passes the check the second goes wherever the first goes
(`descend_follow`). It may go on alone where the first halts, if the word that is left completes the
spelling of some other chain (`Halt.Strays`). That takes a slash in a name or in the word
(`not_strays`).

Main statement: `contextOf_eq_haltOf_iff`, for every tree that passes the check. That a single word
may pass over two levels is `slash_passes_two_levels`.
-/

namespace ShellCompletion

/-! ### Following words on the tree -/

/-- Where words have led on a tree, and the words that are left. -/
structure Halt where
  /-- The spelling of the words that were followed. -/
  path : ContextPath
  /-- The node that was reached. -/
  node : Command
  /-- The words that were not followed. -/
  rest : List String

namespace Command

/-- The child with the long or short name `word`. -/
def child? (command : Command) (word : String) : Option Command :=
  command.subcommands.find? fun sub => sub.name == word || sub.short == some word

/-- Follows words down the tree, one child for each word. A word that looks like a flag and a word
that no child bears are not followed. -/
def follow (path : ContextPath) (node : Command) : List String → Halt
  | [] => ⟨path, node, []⟩
  | word :: rest =>
    if isFlagWord word then ⟨path, node, word :: rest⟩
    else
      match node.child? word with
      | some sub => sub.follow (path.child word) rest
      | none => ⟨path, node, word :: rest⟩

/-- Where a command line leads on the tree; the first word is the program. -/
def haltOf (root : Command) (words : List String) : Halt :=
  root.follow .root words.tail

end Command

/-- The first word that is left is no flag, and after the place that was reached it makes the
spelling of a chain all the same. -/
def Halt.Strays (root : Command) (halt : Halt) : Prop :=
  ∃ word rest, halt.rest = word :: rest ∧ isFlagWord word = false ∧
    ∃ steps node, steps ≠ [] ∧ AliasChain root steps node ∧ stepsPath steps = halt.path.child word

section follow

variable {root node : Command} {steps : List (Nat × String)}

/-- In a checked tree the child found for a word is the one child that the word leads to. -/
theorem AliasChain.child?_eq_some_iff (h : root.check = .ok ())
    (hchain : AliasChain root steps node) {word : String} {sub : Command} :
    node.child? word = some sub ↔
      ∃ i : Nat, node.subcommands[i]? = some sub ∧ sub.HasName word := by
  obtain ⟨path, hpath⟩ := hchain.checked h
  obtain ⟨-, hnodup, hall⟩ := Command.checkBelow_eq_ok_iff.mp hpath
  have hnamed : ∀ {i : Nat} {s : Command}, node.subcommands[i]? = some s →
      (s.HasName word ↔ (s.name == word || s.short == some word) = true) := by
    intro i s hi
    rw [Command.hasName_iff (hall s (List.mem_of_getElem? hi)).1]
    simp
  rw [Command.child?, List.find?_eq_some_iff_getElem]
  constructor
  · rintro ⟨hword, i, hi, rfl, -⟩
    exact ⟨i, List.getElem?_eq_getElem hi, (hnamed (List.getElem?_eq_getElem hi)).mpr hword⟩
  · rintro ⟨i, hsub, hword⟩
    obtain ⟨hi, rfl⟩ := List.getElem?_eq_some_iff.mp hsub
    refine ⟨(hnamed hsub).mp hword, i, hi, rfl, ?_⟩
    intro j hj
    have hother : ¬(node.subcommands[j]).HasName word := by
      intro hj'
      have heq := Command.child_unique hnodup (List.getElem?_eq_getElem (by omega)) hsub hj' hword
      omega
    rw [hnamed (List.getElem?_eq_getElem (by omega))] at hother
    simpa using hother

/-- The walk stays on a chain, which its words spell, one step for each of them. -/
theorem follow_spec (h : root.check = .ok ()) (hchain : AliasChain root steps node)
    (words : List String) :
    ∃ more, AliasChain root (steps ++ more) (node.follow (stepsPath steps) words).node ∧
      (node.follow (stepsPath steps) words).path = stepsPath (steps ++ more) ∧
      more.map (·.2) ++ (node.follow (stepsPath steps) words).rest = words := by
  induction words generalizing steps node with
  | nil => exact ⟨[], by simpa [Command.follow] using hchain⟩
  | cons word rest ih =>
    rw [Command.follow]
    split
    next => exact ⟨[], by simpa using hchain⟩
    next =>
      split
      next sub hsub =>
        -- the chain grows by the child, and the rest of the words by induction
        obtain ⟨i, hi, hname⟩ := (hchain.child?_eq_some_iff h).mp hsub
        obtain ⟨more, hmore, hpath, hwords⟩ := ih (hchain.step hi hname)
        rw [stepsPath_append_singleton] at hmore hpath hwords
        refine ⟨(i, word) :: more, ?_, ?_, ?_⟩
        · rwa [List.append_cons]
        · rw [hpath, List.append_assoc, List.singleton_append]
        · rw [List.map_cons, List.cons_append, hwords]
      next => exact ⟨[], by simpa using hchain⟩

/-- In a tree that passes the check, words are followed along a chain, and the others are left. -/
theorem haltOf_spec (h : root.check = .ok ()) (words : List String) :
    ∃ steps, AliasChain root steps (root.haltOf words).node ∧
      (root.haltOf words).path = stepsPath steps ∧
      steps.map (·.2) ++ (root.haltOf words).rest = words.tail := by
  obtain ⟨steps, hchain, hpath, hwords⟩ := follow_spec h .root words.tail
  exact ⟨steps, hchain, hpath, hwords⟩

/-- The walk halts at a flag or at a word that leads to no child. -/
theorem halt_follow (path : ContextPath) (words : List String) {word : String} {rest : List String}
    (hrest : (node.follow path words).rest = word :: rest) :
    isFlagWord word = true ∨ (node.follow path words).node.child? word = none := by
  fun_induction Command.follow path node words with
  | case1 => cases hrest
  | case2 _ _ _ _ hflag =>
    cases hrest
    exact .inl hflag
  | case3 _ _ _ _ _ _ _ ih => exact ih hrest
  | case4 _ _ _ _ _ hchild =>
    cases hrest
    exact .inr hchild

/-! ### Following spellings in the model -/

/-- Other than the root, a place is there if some chain spells it. -/
theorem hasContext_stepsPath_iff (hne : steps ≠ []) :
    root.model.hasContext (stepsPath steps) = true ↔
      ∃ steps' node, steps' ≠ [] ∧ AliasChain root steps' node ∧
        stepsPath steps' = stepsPath steps := by
  have hroot : (stepsPath steps).isRoot = false := by
    rw [ContextPath.isRoot, beq_eq_false_iff_ne]
    exact fun heq => String.lt_irrefl _ (heq ▸ root_lt_stepsPath hne)
  rw [Model.hasContext, hroot, Bool.false_or, Std.TreeMap.contains_iff_mem, mem_model_contexts]

/-- A word makes another place with the one reached if some chain is spelled that way. -/
theorem hasContext_child_iff {word : String} :
    root.model.hasContext ((stepsPath steps).child word) = true ↔
      ∃ steps' node, steps' ≠ [] ∧ AliasChain root steps' node ∧
        stepsPath steps' = (stepsPath steps).child word := by
  rw [← stepsPath_append_singleton steps 0 word]
  exact hasContext_stepsPath_iff (by simp)

/-- A spelling leads wherever the words lead on the tree. -/
theorem descend_follow (h : root.check = .ok ()) (hchain : AliasChain root steps node)
    (words : List String) :
    root.model.descend (stepsPath steps) words =
      root.model.descend (node.follow (stepsPath steps) words).path
        (node.follow (stepsPath steps) words).rest := by
  induction words generalizing steps node with
  | nil => rfl
  | cons word rest ih =>
    rw [Command.follow]
    split
    next => rfl
    next hflag =>
      split
      next sub hsub =>
        obtain ⟨i, hi, hname⟩ := (hchain.child?_eq_some_iff h).mp hsub
        have hstep := hchain.step hi hname
        have hcontext : root.model.hasContext ((stepsPath steps).child word) = true :=
          hasContext_child_iff.mpr
            ⟨_, sub, by simp, hstep, stepsPath_append_singleton steps i word⟩
        rw [Model.descend, if_neg hflag, if_pos hcontext, ← stepsPath_append_singleton steps i,
          ih hstep]
      next => rfl

/-- A descent does not lead back. -/
theorem length_le_descend (model : Model) (path : ContextPath) (words : List String) :
    path.text.length ≤ (model.descend path words).text.length := by
  fun_induction Model.descend model path words with
  | case1 => exact Nat.le_refl _
  | case2 => exact Nat.le_refl _
  | case3 path word _ _ _ ih =>
    refine Nat.le_trans ?_ ih
    simp only [ContextPath.child, String.length_append]
    omega
  | case4 => exact Nat.le_refl _

/-- Where the walk on the tree halts, the descent halts as well unless the word that is left
strays. -/
theorem descend_halt_iff {halt : Halt} (hpath : halt.path = stepsPath steps) :
    root.model.descend halt.path halt.rest = halt.path ↔ ¬halt.Strays root := by
  obtain ⟨path, last, rest⟩ := halt
  obtain rfl : path = stepsPath steps := hpath
  cases rest with
  | nil =>
    apply iff_of_true rfl
    rintro ⟨word, rest, hrest, -⟩
    cases hrest
  | cons word rest =>
    rw [Model.descend]
    by_cases hflag : isFlagWord word = true
    · rw [if_pos hflag]
      apply iff_of_true rfl
      rintro ⟨_, _, hrest, hword, -⟩
      cases hrest
      rw [hflag] at hword
      cases hword
    rw [if_neg hflag]
    by_cases hcontext : root.model.hasContext ((stepsPath steps).child word) = true
    · rw [if_pos hcontext]
      apply iff_of_false
      · intro heq
        -- the path only grows on the way, and has grown already
        have hlength := length_le_descend root.model ((stepsPath steps).child word) rest
        rw [heq] at hlength
        have hslash : "/".length = 1 := rfl
        simp only [ContextPath.child, String.length_append] at hlength
        omega
      · apply not_not_intro
        exact ⟨word, rest, rfl, by simpa using hflag, hasContext_child_iff.mp hcontext⟩
    · rw [if_neg hcontext]
      apply iff_of_true rfl
      rintro ⟨_, _, hrest, -, hchain⟩
      cases hrest
      exact hcontext (hasContext_child_iff.mpr hchain)

/-- Without slashes nothing strays: the chain with the same spelling has the same words, and so the
same nodes. -/
theorem not_strays (h : root.check = .ok ()) (hfree : root.SlashFree) {words : List String}
    (hwords : ∀ word ∈ words.tail, '/' ∉ word.toList) : ¬(root.haltOf words).Strays root := by
  rintro ⟨word, rest, hrest, hflag, steps', node', -, hchain', hpath'⟩
  obtain ⟨steps, hchain, hpath, hsplit⟩ := haltOf_spec h words
  rw [hrest] at hsplit
  have hword : '/' ∉ word.toList := by
    refine hwords word ?_
    rw [← hsplit]
    exact List.mem_append_right _ List.mem_cons_self
  have hnone : (root.haltOf words).node.child? word = none := by
    rcases halt_follow .root words.tail hrest with hflag' | hnone
    · rw [hflag] at hflag'
      cases hflag'
    · exact hnone
  rw [hpath] at hpath'
  have hspelled : steps'.map (·.2) = steps.map (·.2) ++ [word] := by
    refine ContextPath.spelled_injective ?_ ?_
      (hpath'.trans (ContextPath.spelled_append_singleton _ _).symm)
    · intro name hname
      obtain ⟨step, hstep, rfl⟩ := List.mem_map.mp hname
      exact hfree steps' node' hchain' step hstep
    · intro name hname
      rcases List.mem_append.mp hname with hname | hname
      · obtain ⟨step, hstep, rfl⟩ := List.mem_map.mp hname
        exact hfree steps _ hchain step hstep
      · rw [List.mem_singleton.mp hname]
        exact hword
  -- The other chain ends with a step on `word`, from the node at which the walk halted.
  cases hchain' with
  | root => simp at hspelled
  | @step before parent sub i name hbefore hi hname =>
    simp only [List.map_append, List.map_cons, List.map_nil] at hspelled
    obtain ⟨hsame, hlast⟩ := List.append_inj' hspelled rfl
    obtain ⟨rfl, rfl⟩ := hbefore.unique h hchain hsame
    obtain rfl : name = word := (List.cons.inj hlast).1
    rw [(hchain.child?_eq_some_iff h).mpr ⟨i, hi, hname⟩] at hnone
    cases hnone

end follow

/-- **One level for each word.** In a tree that passes the check the words of a command line lead
down a chain, one step for each word, to where the walk on the tree halts, and the model descends
as far. It halts there as well if and only if the word that is left does not stray; and no word
strays if neither the names of the tree nor the words contain a slash. -/
theorem contextOf_eq_haltOf_iff (root : Command) (h : root.check = .ok ()) (words : List String) :
    (∃ steps, AliasChain root steps (root.haltOf words).node ∧
      (root.haltOf words).path = stepsPath steps ∧
      steps.map (·.2) ++ (root.haltOf words).rest = words.tail) ∧
    root.model.contextOf words =
      root.model.descend (root.haltOf words).path (root.haltOf words).rest ∧
    (root.model.contextOf words = (root.haltOf words).path ↔ ¬(root.haltOf words).Strays root) ∧
    (root.SlashFree → (∀ word ∈ words.tail, '/' ∉ word.toList) →
      ¬(root.haltOf words).Strays root) := by
  have hspec := haltOf_spec h words
  have hdescend : root.model.contextOf words =
      root.model.descend (root.haltOf words).path (root.haltOf words).rest :=
    descend_follow h .root words.tail
  refine ⟨hspec, hdescend, ?_, fun hfree hwords => not_strays h hfree hwords⟩
  obtain ⟨steps, -, hpath, -⟩ := hspec
  rw [hdescend]
  exact descend_halt_iff hpath

/-- Below the program the alias and the name lead down, one level each, up to the flag. -/
theorem contextOf_alias_name_flag :
    let sub : Command := { name := "a", short := some "x", subcommands := [{ name := "b" }] }
    let root : Command := { name := "p", subcommands := [sub] }
    root.check = .ok () ∧ root.model.contextOf ["p", "x", "b", "-v"] = ⟨"/x/b/"⟩ := by
  intro sub root
  have hcheck : root.check = .ok () := by decide
  have hpath : (root.haltOf ["p", "x", "b", "-v"]).path = ⟨"/x/b/"⟩ := by decide
  have hrest : (root.haltOf ["p", "x", "b", "-v"]).rest = ["-v"] := by decide
  obtain ⟨-, -, hiff, -⟩ := contextOf_eq_haltOf_iff root hcheck ["p", "x", "b", "-v"]
  refine ⟨hcheck, (hiff.mpr ?_).trans hpath⟩
  rintro ⟨word, rest, hword, hflag, -⟩
  rw [hrest] at hword
  obtain rfl := (List.cons.inj hword).1
  exact absurd hflag (by decide)

/-- A word with a slash in it may pass over two levels: the root has no child `a/b`, and still that
word leads from the root to the child `b` of its child `a`. -/
theorem slash_passes_two_levels :
    let sub : Command := { name := "a", subcommands := [{ name := "b" }] }
    let root : Command := { name := "p", subcommands := [sub] }
    root.check = .ok () ∧ (root.haltOf ["p", "a/b"]).path = ⟨"/"⟩ ∧
      root.model.contextOf ["p", "a/b"] = ⟨"/a/b/"⟩ := by
  intro sub root
  refine ⟨by decide, by decide, ?_⟩
  have hsub : AliasChain root ([] ++ [(0, "a")]) sub := .step .root rfl ⟨by decide, .inl rfl⟩
  have hchain : AliasChain root ([] ++ [(0, "a")] ++ [(0, "b")]) { name := "b" } :=
    hsub.step rfl ⟨by decide, .inl rfl⟩
  have hcontext : root.model.hasContext ((stepsPath []).child "a/b") = true :=
    hasContext_child_iff.mpr ⟨_, _, by simp, hchain, by decide⟩
  rw [stepsPath_nil] at hcontext
  rw [Model.contextOf, List.tail_cons, Model.descend, if_neg (by decide), if_pos hcontext]
  decide

end ShellCompletion
