import Mathlib.Data.List.Flatten
import Mathlib.Data.List.Nodup
import Mathlib.Data.List.TakeWhile
import ShellCompletion.Proofs.Command.FlagNames
import ShellCompletion.Proofs.Command.Ways

/-!
# Well-formed trees and the faults of others

What makes a tree well formed is said here of all its commands and all ways to them at once, without
the order in which the check goes and without the names that it keeps. The check lets exactly the
well-formed trees pass, and what it reports of another tree is there to be found.

* **Well formed** (`Command.WellFormed`): something is asked of the flags of each command
  (`FlagsFit`) and of the list of its subcommands (`SubcommandsFit`), given the names on the way.
* **A fault** (`Fault.OccursIn`) is at a command: among its flags or its subcommands. A tree with a
  fault is not well formed (`Fault.OccursIn.not_wellFormed`).
* **Passing** (`wellFormed_of_check`) and **refusing** (`occursIn_of_check`).

Main statement: `check_eq_ok_or_occursIn`.
-/

namespace ShellCompletion

/-! ### Blank texts -/

namespace Text

/-- There is nothing but blanks in the text. -/
def IsBlankText (s : String) : Prop :=
  ∀ c ∈ s.toList, isBlank c = true

/-- Only blanks vanish altogether when the end is trimmed. -/
theorem trimEnd_eq_nil_iff {cs : List Char} : trimEnd cs = [] ↔ ∀ c ∈ cs, isBlank c = true := by
  rw [trimEnd, List.reverse_eq_nil_iff, List.dropWhile_eq_nil_iff]
  simp only [List.mem_reverse]

/-- Only a blank text vanishes when it is trimmed. -/
theorem trim_eq_empty_iff {s : String} : trim s = "" ↔ IsBlankText s := by
  rw [trim, String.ofList_eq_empty_iff, trimEnd_eq_nil_iff, IsBlankText]
  constructor
  · intro h
    have hnone : s.toList.dropWhile isBlank = [] := by
      cases hrest : s.toList.dropWhile isBlank with
      | nil => rfl
      | cons c rest =>
        -- the first character that is left is no blank
        have hc := h c (hrest ▸ List.mem_cons_self)
        have hnot := List.head_dropWhile_not isBlank (l := s.toList) (by simp [hrest])
        simp [hrest, hc] at hnot
    exact List.dropWhile_eq_nil_iff.mp hnone
  · intro h c hc
    exact h c ((List.dropWhile_sublist isBlank).subset hc)

end Text

namespace Command

/-- The label of a command is empty if its name is blank. -/
theorem label_eq_empty_iff {command : Command} :
    command.label = "" ↔ Text.IsBlankText command.name :=
  Text.trim_eq_empty_iff

/-- The label of an alias is empty if there is one and it is blank. -/
theorem aliasLabel_eq_empty_iff {command : Command} :
    command.aliasLabel = some "" ↔
      ∃ short, command.short = some short ∧ Text.IsBlankText short := by
  simp only [aliasLabel, Option.map_eq_some_iff, Text.trim_eq_empty_iff]

/-! ### Well formed -/

/-- What is asked of a list of subcommands below the names of a path. -/
structure SubcommandsFit (path : List String) (subs : List Command) : Prop where
  /-- No name is blank. -/
  named : ∀ sub ∈ subs, ¬Text.IsBlankText sub.name
  /-- No alias that is given is blank. -/
  aliased : ∀ sub ∈ subs, ∀ short, sub.short = some short → ¬Text.IsBlankText short
  /-- All names and aliases are different, blanks around them aside. -/
  apart : (subs.flatMap labels).Nodup
  /-- No name is on the path. -/
  fresh : ∀ sub ∈ subs, sub.label ∉ path

/-- The command at the end of a way. -/
def wayEnd (top : Command) (way : List Command) : Command :=
  way.getLastD top

/-- A way ends where the rest of it does. -/
theorem wayEnd_cons (top sub : Command) (way : List Command) :
    top.wayEnd (sub :: way) = sub.wayEnd way :=
  List.getLastD_cons

/-- The names that lead to the end of a way: the first as it is stored, the others without the
blanks around them. -/
def wayNames (root : Command) (way : List Command) : List String :=
  root.name :: way.map label

/-- What a tree is asked to be. -/
structure WellFormed (root : Command) : Prop where
  /-- The program has a name. -/
  named : ¬Text.IsBlankText root.name
  /-- The flags of each command fit together. -/
  flags : ∀ way, root.IsWay way → FlagsFit (root.wayEnd way).flags
  /-- So do its subcommands, with each other and with the names above them. -/
  subcommands : ∀ way, root.IsWay way →
    SubcommandsFit (root.wayNames way) (root.wayEnd way).subcommands

end Command

/-! ### Faults -/

/-- The fault is one of a list of subcommands below the names of a path. -/
def Fault.InSubcommands (path : List String) (subs : List Command) : Fault → Prop
  | .blankName => ∃ sub ∈ subs, Text.IsBlankText sub.name
  | .blankAlias name =>
    ∃ sub ∈ subs, sub.label = name ∧ ∃ short, sub.short = some short ∧ Text.IsBlankText short
  | .duplicateSubcommand name => 2 ≤ (subs.flatMap Command.labels).count name
  | .cycle names => ∃ sub ∈ subs, sub.label ∈ path ∧ names = path ++ [sub.label]
  | .namelessFlag | .badFlagName _ | .emptyChoice _ | .duplicateFlag _ => False

/-- The fault is in the tree: its root has a blank name and the fault says so, or the fault is at a
command to which some way leads. -/
def Fault.OccursIn (root : Command) (fault : Fault) : Prop :=
  fault = .blankName ∧ Text.IsBlankText root.name ∨
    ∃ way, root.IsWay way ∧
      (fault.InFlags (root.wayEnd way).flags ∨
        fault.InSubcommands (root.wayNames way) (root.wayEnd way).subcommands)

/-- Subcommands with a fault do not fit. -/
theorem Fault.InSubcommands.not_fit {fault : Fault} {path : List String} {subs : List Command}
    (h : fault.InSubcommands path subs) : ¬Command.SubcommandsFit path subs := by
  intro hfit
  cases fault with
  | blankName =>
    obtain ⟨sub, hsub, hblank⟩ := h
    exact hfit.named sub hsub hblank
  | blankAlias name =>
    obtain ⟨sub, hsub, -, short, hshort, hblank⟩ := h
    exact hfit.aliased sub hsub short hshort hblank
  | duplicateSubcommand name =>
    have hone := List.nodup_iff_count_le_one.mp hfit.apart name
    have htwo : 2 ≤ (subs.flatMap Command.labels).count name := h
    omega
  | cycle names =>
    obtain ⟨sub, hsub, hmem, -⟩ := h
    exact hfit.fresh sub hsub hmem
  | namelessFlag => exact h
  | badFlagName name => exact h
  | emptyChoice form => exact h
  | duplicateFlag form => exact h

/-- A tree with a fault is not well formed. -/
theorem Fault.OccursIn.not_wellFormed {fault : Fault} {root : Command} (h : fault.OccursIn root) :
    ¬root.WellFormed := by
  intro hwell
  rcases h with ⟨-, hblank⟩ | ⟨way, hway, hflags | hsubs⟩
  · exact hwell.named hblank
  · exact hflags.not_fit (hwell.flags way hway)
  · exact hsubs.not_fit (hwell.subcommands way hway)

namespace Command

/-! ### Passing -/

/-- Below a command that passes, all flags and all subcommands fit. -/
theorem fit_of_checkBelow {top : Command} {path : List String} {way : List Command}
    (hway : top.IsWay way) (hcheck : top.checkBelow path = .ok ()) :
    FlagsFit (top.wayEnd way).flags ∧
      SubcommandsFit (path ++ way.map label) (top.wayEnd way).subcommands := by
  induction way generalizing top path with
  | nil =>
    obtain ⟨hflags, hapart, hall⟩ := checkBelow_eq_ok_iff.mp hcheck
    rw [List.map_nil, List.append_nil]
    refine ⟨Flag.fit_of_checkAll hflags, ?_, ?_, hapart, fun sub hsub => (hall sub hsub).2.1⟩
    · intro sub hsub hblank
      refine (hall sub hsub).1 (List.mem_cons.mpr (.inl ?_))
      exact (label_eq_empty_iff.mpr hblank).symm
    · intro sub hsub short hshort hblank
      refine (hall sub hsub).1 (List.mem_cons_of_mem _ (Option.mem_toList.mpr ?_))
      exact aliasLabel_eq_empty_iff.mpr ⟨short, hshort, hblank⟩
  | cons sub way ih =>
    obtain ⟨hsub, hway⟩ := isWay_cons.mp hway
    obtain ⟨-, -, hall⟩ := checkBelow_eq_ok_iff.mp hcheck
    have hrest := ih hway (hall sub hsub).2.2
    rw [List.append_assoc, List.singleton_append] at hrest
    rwa [wayEnd_cons]

/-- **A tree that passes is well formed.** -/
theorem wellFormed_of_check {root : Command} (h : root.check = .ok ()) : root.WellFormed := by
  have hfit : ∀ way, root.IsWay way → _ := fun way hway =>
    fit_of_checkBelow hway (checkBelow_of_check h)
  refine ⟨?_, fun way hway => (hfit way hway).1, fun way hway => (hfit way hway).2⟩
  intro hblank
  rw [check, if_pos (label_eq_empty_iff.mpr hblank)] at h
  cases h

/-! ### Refusing -/

/-- A subcommand is refused for a fault of its own, or since a name of it has occurred before. -/
theorem inSubcommands_of_checkNames {path seen : List String} {sub : Command} {fault : Fault}
    (h : sub.checkNames path seen = .error fault) :
    fault.InSubcommands path [sub] ∨
      ∃ name, fault = .duplicateSubcommand name ∧ 2 ≤ (seen ++ sub.labels).count name := by
  have hmem := List.mem_singleton_self sub
  simp only [checkNames, refuse_eq_error_iff, bind_eq_error_iff] at h
  rcases h with ⟨hempty, rfl⟩ | ⟨-, ⟨hempty, rfl⟩ | ⟨-, hlabels | ⟨reached, -, hcycle⟩⟩⟩
  · exact .inl ⟨sub, hmem, label_eq_empty_iff.mp hempty⟩
  · exact .inl ⟨sub, hmem, rfl, aliasLabel_eq_empty_iff.mp hempty⟩
  · obtain ⟨before, name, after, reached, hsplit, hbefore, hname⟩ :=
      exists_of_foldlM_eq_error hlabels
    obtain ⟨-, -, rfl⟩ := foldlM_checkName_eq_ok_iff.mp hbefore
    unfold checkName at hname
    split at hname
    next hoccurs =>
      obtain rfl := Except.error.inj hname
      refine .inr ⟨name, rfl, ?_⟩
      have hone := List.count_pos_iff.mpr hoccurs
      rw [labels, hsplit]
      simp only [List.count_append, List.count_reverse, List.count_cons_self] at hone ⊢
      omega
    next => cases hname
  · rcases hcycle with ⟨hpath, rfl⟩ | ⟨-, hpure⟩
    · exact .inl ⟨sub, hmem, hpath, rfl⟩
    · exact absurd hpure (by simp [pure, Except.pure])

end Command

/-- A fault among some of the subcommands is a fault among all. -/
theorem Fault.InSubcommands.mono {fault : Fault} {path : List String} {subs all : List Command}
    (h : fault.InSubcommands path subs) (hsub : subs.Sublist all) :
    fault.InSubcommands path all := by
  cases fault with
  | blankName =>
    obtain ⟨sub, hmem, hblank⟩ := h
    exact ⟨sub, hsub.subset hmem, hblank⟩
  | blankAlias name =>
    obtain ⟨sub, hmem, hblank⟩ := h
    exact ⟨sub, hsub.subset hmem, hblank⟩
  | cycle names =>
    obtain ⟨sub, hmem, hcycle⟩ := h
    exact ⟨sub, hsub.subset hmem, hcycle⟩
  | duplicateSubcommand name => exact Nat.le_trans h ((hsub.flatMap _).count_le name)
  | namelessFlag => exact h
  | badFlagName name => exact h
  | emptyChoice form => exact h
  | duplicateFlag form => exact h

namespace Command

/-- A list of subcommands is refused for a fault of the list, or since a name in it has occurred
before, or for a fault below one of its commands. -/
theorem of_checkSiblings_eq_error {path seen : List String} {subs : List Command} {fault : Fault}
    (h : checkSiblings path seen subs = .error fault) :
    fault.InSubcommands path subs ∨
      (∃ name, fault = .duplicateSubcommand name ∧
        2 ≤ (seen ++ subs.flatMap labels).count name) ∨
      ∃ sub ∈ subs, sub.checkBelow (path ++ [sub.label]) = .error fault := by
  induction subs generalizing seen with
  | nil => cases h
  | cons sub rest ih =>
    rw [checkSiblings, bind_eq_error_iff] at h
    rcases h with hnames | ⟨next, hnames, h⟩
    · rcases inSubcommands_of_checkNames hnames with hown | ⟨name, rfl, htwo⟩
      · exact .inl (hown.mono (List.singleton_sublist.mpr List.mem_cons_self))
      · refine .inr (.inl ⟨name, rfl, ?_⟩)
        simp only [List.flatMap_cons, List.count_append] at htwo ⊢
        omega
    · rw [bind_eq_error_iff] at h
      rcases h with hbelow | ⟨_, -, hrest⟩
      · exact .inr (.inr ⟨sub, List.mem_cons_self, hbelow⟩)
      · obtain ⟨-, -, -, -, rfl⟩ := checkNames_eq_ok_iff.mp hnames
        rcases ih hrest with hown | ⟨name, rfl, htwo⟩ | ⟨other, hother, hbelow⟩
        · exact .inl (hown.mono (List.sublist_cons_self sub rest))
        · -- the names that were kept are those of `sub` and those seen before
          refine .inr (.inl ⟨name, rfl, ?_⟩)
          simp only [List.flatMap_cons, List.count_append, List.count_reverse] at htwo ⊢
          omega
        · exact .inr (.inr ⟨other, List.mem_cons_of_mem _ hother, hbelow⟩)

/-- A command is refused for a fault at a command to which some way leads from it. -/
theorem exists_isWay_of_checkBelow {fault : Fault} (top : Command) :
    ∀ {path : List String}, top.checkBelow path = .error fault →
      ∃ way, top.IsWay way ∧
        (fault.InFlags (top.wayEnd way).flags ∨
          fault.InSubcommands (path ++ way.map label) (top.wayEnd way).subcommands) := by
  induction top using Command.induction with
  | step top ih =>
    intro path h
    have hhere : fault.InFlags top.flags ∨ fault.InSubcommands path top.subcommands →
        ∃ way, top.IsWay way ∧
          (fault.InFlags (top.wayEnd way).flags ∨
            fault.InSubcommands (path ++ way.map label) (top.wayEnd way).subcommands) := by
      intro hown
      refine ⟨[], isWay_nil top, ?_⟩
      rwa [List.map_nil, List.append_nil]
    obtain ⟨name, short, flags, subs⟩ := top
    rw [checkBelow, bind_eq_error_iff] at h
    rcases h with hflags | ⟨_, -, hsubs⟩
    · exact hhere (.inl (Flag.inFlags_of_checkAll hflags))
    · rcases of_checkSiblings_eq_error hsubs with hown | ⟨name, rfl, htwo⟩ | ⟨sub, hsub, hbelow⟩
      · exact hhere (.inr hown)
      · exact hhere (.inr htwo)
      · obtain ⟨way, hway, hfault⟩ := ih sub hsub hbelow
        refine ⟨sub :: way, isWay_cons.mpr ⟨hsub, hway⟩, ?_⟩
        rw [List.append_assoc, List.singleton_append] at hfault
        rwa [wayEnd_cons]

/-- **What is reported of a tree is there.** -/
theorem occursIn_of_check {root : Command} {fault : Fault} (h : root.check = .error fault) :
    fault.OccursIn root := by
  unfold check at h
  split at h
  next hempty =>
    obtain rfl := Except.error.inj h
    exact .inl ⟨rfl, label_eq_empty_iff.mp hempty⟩
  next => exact .inr (exists_isWay_of_checkBelow root h)

/-- **What the check decides.** Every tree that is well formed passes. Of every other tree exactly
one fault is reported, and the tree has it. -/
theorem check_eq_ok_or_occursIn (root : Command) :
    root.WellFormed ∧ root.check = .ok () ∨
      ¬root.WellFormed ∧ ∃ fault, root.check = .error fault ∧ fault.OccursIn root := by
  cases h : root.check with
  | ok answer => exact .inl ⟨wellFormed_of_check h, rfl⟩
  | error fault =>
    have hoccurs := occursIn_of_check h
    exact .inr ⟨hoccurs.not_wellFormed, fault, rfl, hoccurs⟩

end Command

end ShellCompletion
