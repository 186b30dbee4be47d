import Mathlib.Data.List.Nodup
import ShellCompletion.Command.Validation
import ShellCompletion.Proofs.Model.Chain

/-!
# Siblings in a tree that passes the check

The check goes through a list of subcommands once and keeps the names that it has seen. Read as a
whole it asks that no name of the list occurs twice, and it asks the same at every node below.

* **One list** (`checkSiblings_eq_ok_iff`) and **one node** (`checkBelow_eq_ok_iff`): what is asked,
  without the names that are kept on the way.
* **One child for a word** (`child_unique`): at a checked node a word leads to at most one child.
* **Every node** (`AliasChain.checked`): the check of the root reaches the end of every chain, so
  that a chain is determined by its words (`AliasChain.unique`).
-/

namespace ShellCompletion

/-! ### Steps of a check -/

section steps

variable {ε α β : Type}

/-- A sequence succeeds if both of its parts do. -/
theorem bind_eq_ok_iff {x : Except ε α} {f : α → Except ε β} {b : β} :
    x >>= f = .ok b ↔ ∃ a, x = .ok a ∧ f a = .ok b := by
  cases x with
  | error e => simp [bind, Except.bind]
  | ok a => simp [bind, Except.bind]

/-- A value that is at hand is the result. -/
theorem pure_eq_ok_iff {a b : α} : (pure a : Except ε α) = .ok b ↔ a = b := by
  simp [pure, Except.pure]

/-- A refusal is passed exactly if there is no ground for it. -/
theorem refuse_eq_ok_iff {p : Prop} [Decidable p] {e : ε} {f : Unit → Except ε β} {b : β} :
    (if p then throw e >>= f else f ()) = .ok b ↔ ¬p ∧ f () = .ok b := by
  by_cases h : p
  · simp [h, throw, throwThe, MonadExceptOf.throw, bind, Except.bind]
  · simp [h]

end steps

namespace Command

/-- The names of a command as they are compared with others, the long one first. -/
def labels (command : Command) : List String :=
  command.label :: command.aliasLabel.toList

/-! ### One list of subcommands -/

/-- A name passes if it has not been seen; then it counts as seen. -/
theorem checkName_eq_ok_iff {seen seen' : List String} {name : String} :
    checkName seen name = .ok seen' ↔ name ∉ seen ∧ seen' = name :: seen := by
  unfold checkName
  split
  next h => simp [h]
  next h => simp [h, eq_comm]

/-- Names pass one after the other if no two are the same and none has been seen. -/
theorem foldlM_checkName_eq_ok_iff {names seen seen' : List String} :
    names.foldlM checkName seen = .ok seen' ↔
      names.Nodup ∧ (∀ name ∈ names, name ∉ seen) ∧ seen' = names.reverse ++ seen := by
  induction names generalizing seen with
  | nil => simp [pure, Except.pure, eq_comm]
  | cons name rest ih =>
    rw [List.foldlM_cons, bind_eq_ok_iff]
    simp only [checkName_eq_ok_iff, ih]
    constructor
    · rintro ⟨_, ⟨hname, rfl⟩, hnodup, hfresh, rfl⟩
      refine ⟨List.nodup_cons.mpr ⟨fun h => hfresh name h List.mem_cons_self, hnodup⟩, ?_, by simp⟩
      intro n hn
      rcases List.mem_cons.mp hn with rfl | hn
      · exact hname
      · exact fun h => hfresh n hn (List.mem_cons_of_mem _ h)
    · rintro ⟨hnodup, hfresh, rfl⟩
      obtain ⟨hname, hrest⟩ := List.nodup_cons.mp hnodup
      refine ⟨_, ⟨hfresh name List.mem_cons_self, rfl⟩, hrest, ?_, by simp⟩
      intro n hn h
      rcases List.mem_cons.mp h with rfl | h
      · exact hname hn
      · exact hfresh n (List.mem_cons_of_mem _ hn) h

/-- A subcommand passes if its names are not blank, differ from each other and from those seen, and
its label is not on the way to it. -/
theorem checkNames_eq_ok_iff {path seen seen' : List String} {sub : Command} :
    sub.checkNames path seen = .ok seen' ↔
      "" ∉ sub.labels ∧ sub.label ∉ path ∧ sub.labels.Nodup ∧ (∀ name ∈ sub.labels, name ∉ seen) ∧
        seen' = sub.labels.reverse ++ seen := by
  have hempty : "" ∉ sub.labels ↔ sub.label ≠ "" ∧ sub.aliasLabel ≠ some "" := by
    rw [labels, List.mem_cons, not_or, Option.mem_toList, ne_comm]
  rw [hempty, checkNames]
  simp only [refuse_eq_ok_iff, bind_eq_ok_iff, pure_eq_ok_iff]
  change (_ ∧ _ ∧ ∃ a, sub.labels.foldlM checkName seen = .ok a ∧ _ ∧ a = seen') ↔ _
  simp only [foldlM_checkName_eq_ok_iff]
  constructor
  · rintro ⟨hlabel, halias, _, ⟨hnodup, hfresh, rfl⟩, hpath, rfl⟩
    exact ⟨⟨hlabel, halias⟩, hpath, hnodup, hfresh, rfl⟩
  · rintro ⟨⟨hlabel, halias⟩, hpath, hnodup, hfresh, rfl⟩
    exact ⟨hlabel, halias, _, ⟨hnodup, hfresh, rfl⟩, hpath, rfl⟩

/-- **What the check asks of a list of subcommands**: that no name is blank or occurs twice, that
no long name is on the path, and the same of the lists below. -/
theorem checkSiblings_eq_ok_iff {path seen : List String} {subs : List Command} :
    checkSiblings path seen subs = .ok () ↔
      (subs.flatMap labels).Nodup ∧ (∀ name ∈ subs.flatMap labels, name ∉ seen) ∧
        ∀ sub ∈ subs, "" ∉ sub.labels ∧ sub.label ∉ path ∧
          sub.checkBelow (path ++ [sub.label]) = .ok () := by
  induction subs generalizing seen with
  | nil => simp [checkSiblings]
  | cons sub rest ih =>
    rw [checkSiblings, bind_eq_ok_iff]
    simp only [bind_eq_ok_iff, checkNames_eq_ok_iff, ih, List.flatMap_cons]
    -- for `rest`, the labels of `sub` are among those seen before
    constructor
    · rintro ⟨_, ⟨hempty, hpath, hnodup, hfresh, rfl⟩, _, hbelow, hrest, hapart, hall⟩
      refine ⟨List.nodup_append.mpr ⟨hnodup, hrest, ?_⟩, ?_, ?_⟩
      · rintro a ha _ hb rfl
        exact hapart a hb (List.mem_append_left _ (List.mem_reverse.mpr ha))
      · intro name hname
        rcases List.mem_append.mp hname with hname | hname
        · exact hfresh name hname
        · exact fun h => hapart name hname (List.mem_append_right _ h)
      · intro s hs
        rcases List.mem_cons.mp hs with rfl | hs
        · exact ⟨hempty, hpath, hbelow⟩
        · exact hall s hs
    · rintro ⟨hnodup, hfresh, hall⟩
      obtain ⟨hsub, hrest, hapart⟩ := List.nodup_append.mp hnodup
      obtain ⟨hempty, hpath, hbelow⟩ := hall sub List.mem_cons_self
      refine ⟨_, ⟨hempty, hpath, hsub, fun name h => hfresh name (List.mem_append_left _ h), rfl⟩,
        (), hbelow, hrest, ?_, fun s hs => hall s (List.mem_cons_of_mem _ hs)⟩
      intro name hname h
      rcases List.mem_append.mp h with h | h
      · exact hapart name (List.mem_reverse.mp h) name hname rfl
      · exact hfresh name (List.mem_append_right _ hname) h

/-- What the check asks of a command and of all below it. -/
theorem checkBelow_eq_ok_iff {path : List String} {command : Command} :
    command.checkBelow path = .ok () ↔
      Flag.checkAll command.flags = .ok () ∧ (command.subcommands.flatMap labels).Nodup ∧
        ∀ sub ∈ command.subcommands, "" ∉ sub.labels ∧ sub.label ∉ path ∧
          sub.checkBelow (path ++ [sub.label]) = .ok () := by
  obtain ⟨name, short, flags, subs⟩ := command
  rw [checkBelow, bind_eq_ok_iff]
  simp only [checkSiblings_eq_ok_iff, List.not_mem_nil, not_false_eq_true, implies_true, true_and]
  exact ⟨fun ⟨_, hflags, h⟩ => ⟨hflags, h⟩, fun ⟨hflags, h⟩ => ⟨(), hflags, h⟩⟩

/-! ### One child for a word -/

/-- What can be typed for a command is one of its labels but for blanks around it. -/
theorem trim_mem_labels {command : Command} {word : String} (h : command.HasName word) :
    Text.trim word ∈ command.labels := by
  obtain ⟨-, rfl | hshort⟩ := h
  · exact List.mem_cons_self
  · simp [labels, aliasLabel, hshort]

/-- A name is not empty if it is not blank. -/
theorem hasName_iff {command : Command} {word : String} (h : "" ∉ command.labels) :
    command.HasName word ↔ command.name = word ∨ command.short = some word := by
  refine ⟨And.right, fun hword => ⟨?_, hword⟩⟩
  rintro rfl
  refine h ?_
  rcases hword with hname | hshort
  · rw [labels, label, hname]
    exact List.mem_cons_self
  · rw [labels, aliasLabel, hshort]
    exact List.mem_cons_of_mem _ List.mem_cons_self

/-- No two siblings share a word if no two labels are equal. -/
theorem child_unique {subs : List Command} (h : (subs.flatMap labels).Nodup) {i j : Nat}
    {a b : Command} {word : String} (hi : subs[i]? = some a) (hj : subs[j]? = some b)
    (ha : a.HasName word) (hb : b.HasName word) : i = j := by
  have hapart := List.pairwise_iff_getElem.mp (List.nodup_flatMap.mp h).2
  obtain ⟨hi', rfl⟩ := List.getElem?_eq_some_iff.mp hi
  obtain ⟨hj', rfl⟩ := List.getElem?_eq_some_iff.mp hj
  rcases Nat.lt_trichotomy i j with hlt | heq | hlt
  · exact absurd (trim_mem_labels hb) (hapart i j hi' hj' hlt (trim_mem_labels ha))
  · exact heq
  · exact absurd (trim_mem_labels ha) (hapart j i hj' hi' hlt (trim_mem_labels hb))

end Command

/-! ### Every node of a checked tree -/

namespace AliasChain

variable {root : Command}

/-- The check of the whole tree includes a check at the end of every chain. -/
theorem checked (h : root.check = .ok ()) {steps : List (Nat × String)} {node : Command}
    (hchain : AliasChain root steps node) : ∃ path, node.checkBelow path = .ok () := by
  induction hchain with
  | root =>
    refine ⟨[root.name], ?_⟩
    rw [Command.check] at h
    split at h
    next => cases h
    next => exact h
  | step _ hi _ ih =>
    obtain ⟨path, hpath⟩ := ih
    obtain ⟨-, -, hall⟩ := Command.checkBelow_eq_ok_iff.mp hpath
    exact ⟨_, (hall _ (List.mem_of_getElem? hi)).2.2⟩

/-- In a tree that passes the check, no two children of a node share a label. -/
theorem nodup_labels (h : root.check = .ok ()) {steps : List (Nat × String)} {node : Command}
    (hchain : AliasChain root steps node) : (node.subcommands.flatMap Command.labels).Nodup := by
  obtain ⟨path, hpath⟩ := hchain.checked h
  exact (Command.checkBelow_eq_ok_iff.mp hpath).2.1

/-- In a checked tree the words of a chain determine its steps and its end. -/
theorem unique (h : root.check = .ok ()) {steps steps' : List (Nat × String)}
    {node node' : Command} (hchain : AliasChain root steps node)
    (hchain' : AliasChain root steps' node') (hwords : steps.map (·.2) = steps'.map (·.2)) :
    steps = steps' ∧ node = node' := by
  induction hchain generalizing steps' node' with
  | root =>
    cases hchain' with
    | root => exact ⟨rfl, rfl⟩
    | step => simp at hwords
  | @step steps parent sub i name hchain hi hname ih =>
    cases hchain' with
    | root => simp at hwords
    | @step steps' parent' sub' j name' hchain' hj hname' =>
      simp only [List.map_append, List.map_cons, List.map_nil] at hwords
      obtain ⟨hbefore, hlast⟩ := List.append_inj' hwords rfl
      obtain ⟨rfl, rfl⟩ := ih hchain' hbefore
      obtain rfl : name = name' := List.cons.inj hlast |>.1
      obtain rfl := Command.child_unique (hchain.nodup_labels h) hi hj hname hname'
      obtain rfl := Option.some.inj (hi.symm.trans hj)
      exact ⟨rfl, rfl⟩

end AliasChain

end ShellCompletion
