import ShellCompletion.Model.Walk

/-!
# Alias chains

A way down a command tree chooses a child at each step, and one of the words that lead to it. Such
chains say what a tree means without a queue: which places there are, and what is offered there.

* **Words and options** (`Command.HasName`, `Command.Offers`): what leads to a command, and what can
  be typed at one. Empty names count for nothing.
* **Chains** (`AliasChain`): a step is the number of the child and the word that is chosen for it.
  The numbers tell apart nodes that look the same, the words spell the place (`spelled`). Words
  without slashes can be read back from it (`spelled_injective`), others need not.
* **The queue** (`mem_visits_iff`): the walk visits exactly the ends of the non-empty chains, each
  under the spelling of its chain. One half is an invariant of all that enters the queue
  (`forall_mem_visits`), the other is that whatever is below a visit is visited in its turn
  (`mem_visits_of_mem_below`).
-/

namespace ShellCompletion

/-! ### Words and options -/

/-- The text is a form of the flag: one of its names, if that is not empty, behind its dashes. -/
def Flag.HasForm (flag : Flag) (form : String) : Prop :=
  ∃ name, name ≠ "" ∧
    (flag.long = some name ∧ form = "--" ++ name ∨ flag.short = some name ∧ form = "-" ++ name)

namespace Command

/-- The word leads to the command: it is its long or its short name, and not empty. -/
def HasName (command : Command) (name : String) : Prop :=
  name ≠ "" ∧ (command.name = name ∨ command.short = some name)

/-- The text can be typed at the command: it is a form of one of its flags or leads to one of its
subcommands. -/
def Offers (command : Command) (option : String) : Prop :=
  (∃ flag ∈ command.flags, flag.HasForm option) ∨ ∃ sub ∈ command.subcommands, sub.HasName option

end Command

/-- A name is present if it is given and not empty. -/
theorem present_eq_some_iff {name : Option String} {s : String} :
    present name = some s ↔ s ≠ "" ∧ name = some s := by
  simp only [present, Option.filter_eq_some_iff, decide_eq_true_eq]
  exact and_comm

/-- What can be typed for a flag are its forms. -/
theorem Flag.mem_typedForms {flag : Flag} {form : String} :
    form ∈ flag.typedForms ↔ flag.HasForm form := by
  simp only [typedForms, HasForm, List.mem_append, Option.mem_toList, Option.map_eq_some_iff,
    present_eq_some_iff]
  constructor
  · rintro (⟨name, ⟨hne, hlong⟩, rfl⟩ | ⟨name, ⟨hne, hshort⟩, rfl⟩)
    · exact ⟨name, hne, .inl ⟨hlong, rfl⟩⟩
    · exact ⟨name, hne, .inr ⟨hshort, rfl⟩⟩
  · rintro ⟨name, hne, ⟨hlong, rfl⟩ | ⟨hshort, rfl⟩⟩
    · exact .inl ⟨name, ⟨hne, hlong⟩, rfl⟩
    · exact .inr ⟨name, ⟨hne, hshort⟩, rfl⟩

namespace Command

/-- What can be typed for a command are its names. -/
theorem mem_typedNames {command : Command} {name : String} :
    name ∈ command.typedNames ↔ command.HasName name := by
  simp only [typedNames, HasName, List.mem_append, Option.mem_toList, present_eq_some_iff,
    Option.some.injEq]
  exact and_or_left.symm

/-- The direct options of a command are what it offers. -/
theorem mem_directOptions {command : Command} {option : String} :
    option ∈ command.directOptions ↔ command.Offers option := by
  simp only [directOptions, Offers, List.mem_append, List.mem_flatMap, Flag.mem_typedForms,
    mem_typedNames]

end Command

/-! ### Chains and their spellings -/

/-- A way down a tree. A step is the number of the child that is taken and the word for it. -/
inductive AliasChain (root : Command) : List (Nat × String) → Command → Prop
  /-- The empty chain ends at the root. -/
  | root : AliasChain root [] root
  /-- A chain goes on to a child of the node at which it ends. -/
  | step {steps : List (Nat × String)} {parent sub : Command} {i : Nat} {name : String} :
    AliasChain root steps parent → parent.subcommands[i]? = some sub → sub.HasName name →
      AliasChain root (steps ++ [(i, name)]) sub

namespace AliasChain

variable {root node node' : Command} {steps steps' : List (Nat × String)}

/-- The empty chain ends at the root. -/
theorem eq_root_of_nil (h : AliasChain root steps node) (hnil : steps = []) : node = root := by
  cases h with
  | root => rfl
  | step => simp at hnil

/-- Every beginning of a chain is a chain. -/
theorem of_append {more : List (Nat × String)} (h : AliasChain root (steps ++ more) node) :
    ∃ parent, AliasChain root steps parent := by
  generalize hall : steps ++ more = all at h
  induction h generalizing more with
  | root =>
    obtain ⟨rfl, -⟩ := List.append_eq_nil_iff.mp hall
    exact ⟨root, .root⟩
  | @step before parent sub i name hbefore hi hname ih =>
    rcases List.eq_nil_or_concat more with rfl | ⟨init, last, rfl⟩
    · rw [List.append_nil] at hall
      subst hall
      exact ⟨sub, hbefore.step hi hname⟩
    · rw [List.concat_eq_append, ← List.append_assoc] at hall
      exact ih (List.append_inj' hall rfl).1

/-- Which node a chain ends at depends on the children that it takes, not on their names. -/
theorem node_eq_of_map_fst_eq (hchain : AliasChain root steps node)
    (hchain' : AliasChain root steps' node') (hsame : steps.map (·.1) = steps'.map (·.1)) :
    node = node' := by
  induction hchain generalizing steps' node' with
  | root =>
    cases hchain' with
    | root => rfl
    | step => simp at hsame
  | @step steps parent sub i name hchain hi hname ih =>
    cases hchain' with
    | root => simp at hsame
    | @step steps' parent' sub' j name' hchain' hj hname' =>
      simp only [List.map_append, List.map_cons, List.map_nil] at hsame
      obtain ⟨hbefore, hlast⟩ := List.append_inj' hsame rfl
      obtain rfl := ih hchain' hbefore
      obtain rfl : i = j := (List.cons.inj hlast).1
      exact Option.some.inj (hi.symm.trans hj)

end AliasChain

/-- Two ways of parting a list at the same entry are the same, unless the entry occurs in the front
of one of them and so in the back of the other. -/
theorem eq_or_mem_of_append_cons_eq {α : Type} {c : α} {a a' b b' : List α}
    (h : a ++ c :: b = a' ++ c :: b') : a = a' ∧ b = b' ∨ c ∈ a ∧ c ∈ b' ∨ c ∈ a' ∧ c ∈ b := by
  rcases List.append_eq_append_iff.mp h with ⟨more, rfl, hb⟩ | ⟨more, rfl, hb⟩
  · cases more with
    | nil => exact .inl ⟨(List.append_nil a).symm, by simpa using hb⟩
    | cons d more =>
      obtain ⟨rfl, rfl⟩ := List.cons.inj hb
      exact .inr (.inr ⟨by simp, by simp⟩)
  · cases more with
    | nil => exact .inl ⟨List.append_nil a', by simpa using hb.symm⟩
    | cons d more =>
      obtain ⟨rfl, rfl⟩ := List.cons.inj hb
      exact .inr (.inl ⟨by simp, by simp⟩)

namespace ContextPath

/-- The place spelled with `names`: each of them before a slash, and a slash before all. -/
def spelled (names : List String) : ContextPath :=
  ⟨"/" ++ String.join (names.map (· ++ "/"))⟩

/-- One name more leads one place further. -/
theorem spelled_append_singleton (names : List String) (name : String) :
    spelled (names ++ [name]) = (spelled names).child name := by
  simp [spelled, child, String.join, String.append_assoc]

/-- The characters of a spelling. -/
theorem toList_spelled (names : List String) :
    (spelled names).text.toList = '/' :: names.flatMap fun name => name.toList ++ ['/'] := by
  have hjoin : ∀ (texts : List String) (start : String),
      (texts.foldl (· ++ ·) start).toList = start.toList ++ texts.flatMap String.toList := by
    intro texts
    induction texts with
    | nil => simp
    | cons text rest ih => simp [ih]
  simp [spelled, String.join, hjoin, List.flatMap_map]

/-- Names without slashes can be read back from a spelling. -/
theorem spelled_injective {names names' : List String} (h : ∀ name ∈ names, '/' ∉ name.toList)
    (h' : ∀ name ∈ names', '/' ∉ name.toList) (heq : spelled names = spelled names') :
    names = names' := by
  have hchars := congrArg (fun path => path.text.toList) heq
  simp only [toList_spelled, List.cons.injEq, true_and] at hchars
  clear heq
  induction names generalizing names' with
  | nil =>
    cases names' with
    | nil => rfl
    | cons name rest => simp at hchars
  | cons name rest ih =>
    cases names' with
    | nil => simp at hchars
    | cons name' rest' =>
      simp only [List.flatMap_cons, List.append_assoc, List.singleton_append] at hchars
      rcases eq_or_mem_of_append_cons_eq hchars with ⟨hname, hrest⟩ | ⟨hslash, -⟩ | ⟨hslash, -⟩
      · rw [String.toList_injective hname, ih (fun n hn => h n (List.mem_cons_of_mem _ hn))
          (fun n hn => h' n (List.mem_cons_of_mem _ hn)) hrest]
      · exact absurd hslash (h name List.mem_cons_self)
      · exact absurd hslash (h' name' List.mem_cons_self)

end ContextPath

/-- The place that a chain leads to. -/
def stepsPath (steps : List (Nat × String)) : ContextPath :=
  .spelled (steps.map (·.2))

/-- No steps lead to the root. -/
theorem stepsPath_nil : stepsPath [] = .root := rfl

/-- One step more leads one place further. -/
theorem stepsPath_append_singleton (steps : List (Nat × String)) (i : Nat) (name : String) :
    stepsPath (steps ++ [(i, name)]) = (stepsPath steps).child name := by
  rw [stepsPath, List.map_append]
  exact ContextPath.spelled_append_singleton _ _

/-- No word of a chain contains a slash. -/
def Command.SlashFree (root : Command) : Prop :=
  ∀ steps node, AliasChain root steps node → ∀ step ∈ steps, '/' ∉ step.2.toList

/-! ### What the queue visits -/

namespace Visit

/-- Below a visit are the subcommands of its command, each under each of its names. -/
theorem mem_below {visit v : Visit} :
    v ∈ visit.below ↔ ∃ (i : Nat) (name : String),
      visit.command.subcommands[i]? = some v.command ∧ v.command.HasName name ∧
        v.path = visit.path.child name := by
  obtain ⟨path, sub⟩ := v
  simp only [below, List.mem_flatMap, List.mem_map, mk.injEq, Command.mem_typedNames]
  constructor
  · rintro ⟨child, hchild, name, hname, rfl, rfl⟩
    obtain ⟨i, hi⟩ := List.mem_iff_getElem?.mp hchild
    exact ⟨i, name, hi, hname, rfl⟩
  · rintro ⟨i, name, hi, hname, rfl⟩
    exact ⟨sub, List.mem_of_getElem? hi, name, hname, rfl, rfl⟩

end Visit

/-- What holds of every visit in the queue and passes on to those below it holds of all visits. -/
theorem forall_mem_visits {P : Visit → Prop} (hbelow : ∀ v, P v → ∀ w ∈ v.below, P w)
    (queue : List Visit) (hqueue : ∀ v ∈ queue, P v) : ∀ v ∈ visits queue, P v := by
  fun_induction visits queue with
  | case1 => exact hqueue
  | case2 visit queue ih =>
    have hvisit := hqueue visit List.mem_cons_self
    intro v hv
    rcases List.mem_cons.mp hv with rfl | hv
    · exact hvisit
    · refine ih (fun w hw => ?_) v hv
      rcases List.mem_append.mp hw with hw | hw
      · exact hqueue w (List.mem_cons_of_mem _ hw)
      · exact hbelow visit hvisit w hw

/-- Whatever stands in the queue gets its turn. -/
theorem mem_visits_of_mem {queue : List Visit} {v : Visit} (h : v ∈ queue) : v ∈ visits queue := by
  fun_induction visits queue with
  | case1 => exact h
  | case2 visit queue ih =>
    rcases List.mem_cons.mp h with rfl | h
    · exact List.mem_cons_self
    · exact List.mem_cons_of_mem _ (ih (List.mem_append_left _ h))

/-- Whatever is below a visit is visited as well. -/
theorem mem_visits_of_mem_below {queue : List Visit} {v w : Visit} (hv : v ∈ visits queue)
    (hw : w ∈ v.below) : w ∈ visits queue := by
  fun_induction visits queue with
  | case1 => exact absurd hv List.not_mem_nil
  | case2 visit queue ih =>
    rcases List.mem_cons.mp hv with rfl | hv
    · exact List.mem_cons_of_mem _ (mem_visits_of_mem (List.mem_append_right _ hw))
    · exact List.mem_cons_of_mem _ (ih hv)

/-- Each visit is the end of a chain, under the spelling of the chain. -/
theorem exists_aliasChain_of_mem_visits {root : Command} {v : Visit} (h : v ∈ root.visits) :
    ∃ steps, steps ≠ [] ∧ AliasChain root steps v.command ∧ v.path = stepsPath steps := by
  have hstep : ∀ (steps) (u : Visit), AliasChain root steps u.command → u.path = stepsPath steps →
      ∀ w ∈ u.below, ∃ steps, steps ≠ [] ∧ AliasChain root steps w.command ∧
        w.path = stepsPath steps := by
    intro steps u hchain hpath w hw
    obtain ⟨i, name, hi, hname, hw⟩ := Visit.mem_below.mp hw
    refine ⟨steps ++ [(i, name)], by simp, hchain.step hi hname, ?_⟩
    rw [hw, hpath, stepsPath_append_singleton]
  refine forall_mem_visits ?_ _ (hstep [] ⟨.root, root⟩ .root rfl) v h
  rintro u ⟨steps, -, hchain, hpath⟩
  exact hstep steps u hchain hpath

/-- The end of a chain that is not empty is visited. -/
theorem AliasChain.mem_visits {root node : Command} {steps : List (Nat × String)}
    (h : AliasChain root steps node) (hne : steps ≠ []) :
    (⟨stepsPath steps, node⟩ : Visit) ∈ root.visits := by
  induction h with
  | root => exact absurd rfl hne
  | @step steps parent sub i name hchain hi hname ih =>
    have hbelow : (⟨stepsPath (steps ++ [(i, name)]), sub⟩ : Visit) ∈
        (⟨stepsPath steps, parent⟩ : Visit).below :=
      Visit.mem_below.mpr ⟨i, name, hi, hname, stepsPath_append_singleton steps i name⟩
    cases hchain with
    | root => exact mem_visits_of_mem hbelow
    | step => exact mem_visits_of_mem_below (ih (by simp)) hbelow

/-- **What the walk visits**: the ends of the chains that are not empty, each under the spelling of
its chain. -/
theorem mem_visits_iff {root : Command} {v : Visit} :
    v ∈ root.visits ↔
      ∃ steps, steps ≠ [] ∧ AliasChain root steps v.command ∧ v.path = stepsPath steps := by
  constructor
  · exact exists_aliasChain_of_mem_visits
  · rintro ⟨steps, hne, hchain, hpath⟩
    obtain ⟨path, command⟩ := v
    rw [show path = stepsPath steps from hpath]
    exact hchain.mem_visits hne

end ShellCompletion
