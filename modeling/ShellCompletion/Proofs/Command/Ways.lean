import Mathlib.Data.List.Nodup
import ShellCompletion.Proofs.Command.Siblings

/-!
# Names on the way down a command tree

A way leads from a command down to one below it, from parent to child. The check carries the names
of the commands on its way along and lets no command pass that bears one of them. The names are
compared without the blanks around them, but the name of the root is carried along as it is stored.

* **Ways** (`Command.IsWay`) and **induction on a tree** (`Command.induction`).
* **Down a way** (`nodup_append_of_checkBelow`): in a checked tree a way adds only new names to
  those that the check has carried to its beginning.

Main statement: `names_apart_on_way`. With blanks around it the name of the root may come back:
`padded_root_repeats`.
-/

namespace ShellCompletion.Command

/-! ### Ways -/

/-- The command is a child of the other. -/
def IsChildOf (sub parent : Command) : Prop :=
  sub ∈ parent.subcommands

/-- The commands are those on a way down from `top`, which itself is left out. -/
def IsWay (top : Command) (way : List Command) : Prop :=
  (top :: way).IsChain fun parent sub => sub.IsChildOf parent

/-- It is a way to stay where one is. -/
theorem isWay_nil (top : Command) : top.IsWay [] :=
  List.IsChain.singleton top

/-- A way goes on from a child. -/
theorem isWay_cons {top sub : Command} {way : List Command} :
    top.IsWay (sub :: way) ↔ sub ∈ top.subcommands ∧ sub.IsWay way :=
  List.isChain_cons_cons

/-- A child is smaller than its parent. -/
theorem sizeOf_lt_of_mem {command sub : Command} (h : sub ∈ command.subcommands) :
    sizeOf sub < sizeOf command := by
  have hlist := List.sizeOf_lt_of_mem h
  obtain ⟨name, short, flags, subs⟩ := command
  have hcommand := Command.mk.sizeOf_spec name short flags subs
  show sizeOf sub < sizeOf (Command.mk name short flags subs)
  dsimp only at hlist
  omega

/-- What a command has as soon as its subcommands have it, every command has. -/
theorem induction {P : Command → Prop}
    (step : ∀ command, (∀ sub ∈ command.subcommands, P sub) → P command) (command : Command) :
    P command :=
  step command fun sub _ => induction step sub
termination_by sizeOf command
decreasing_by exact sizeOf_lt_of_mem ‹_›

/-! ### Down a way -/

/-- The check of a tree is a check below the name of its root as it is stored. -/
theorem checkBelow_of_check {root : Command} (h : root.check = .ok ()) :
    root.checkBelow [root.name] = .ok () := by
  unfold check at h
  split at h
  next => cases h
  next => exact h

/-- Below a command that passes the check, no label on a way repeats another one or one on the path.
-/
theorem nodup_append_of_checkBelow {top : Command} {path : List String} {way : List Command}
    (hway : top.IsWay way) (hcheck : top.checkBelow path = .ok ()) (hpath : path.Nodup) :
    (path ++ way.map label).Nodup := by
  induction way generalizing top path with
  | nil => simpa using hpath
  | cons sub way ih =>
    obtain ⟨hsub, hway⟩ := isWay_cons.mp hway
    obtain ⟨-, -, hall⟩ := checkBelow_eq_ok_iff.mp hcheck
    obtain ⟨-, hfresh, hbelow⟩ := hall sub hsub
    have hlonger : (path ++ [sub.label]).Nodup := by
      rw [List.nodup_append]
      refine ⟨hpath, List.nodup_singleton _, ?_⟩
      rintro name hname _ hlast rfl
      exact hfresh (List.mem_singleton.mp hlast ▸ hname)
    have hrest := ih hway hbelow hlonger
    rwa [List.append_assoc, List.singleton_append] at hrest

/-- **No name comes back on a way** of a tree that passes the check. The commands below the root
have different names, blanks aside, and none has the name of the root as it is stored. So if the
name of the root has no blanks around it, all names on the way are different, that of the root
included. -/
theorem names_apart_on_way {root : Command} (h : root.check = .ok ()) {way : List Command}
    (hway : root.IsWay way) :
    (root.name :: way.map label).Nodup ∧
      (root.label = root.name → ((root :: way).map label).Nodup) := by
  have hnodup := nodup_append_of_checkBelow hway (checkBelow_of_check h) (List.nodup_singleton _)
  rw [List.singleton_append] at hnodup
  refine ⟨hnodup, ?_⟩
  intro hroot
  rw [List.map_cons, hroot]
  exact hnodup

/-- Blanks around the names below the root do not matter, nor do aliases that come back. -/
theorem names_apart_on_way_padded :
    let add : Command := { name := " add ", short := some "git" }
    let remote : Command := { name := "remote ", short := some "add", subcommands := [add] }
    let root : Command := { name := "git", subcommands := [remote] }
    root.check = .ok () ∧ root.IsWay [remote, add] ∧
      ((root :: [remote, add]).map label).Nodup := by
  intro add remote root
  have hcheck : root.check = .ok () := by decide
  have hway : root.IsWay [remote, add] := by
    rw [isWay_cons, isWay_cons]
    exact ⟨List.mem_singleton_self remote, List.mem_singleton_self add, isWay_nil add⟩
  exact ⟨hcheck, hway, (names_apart_on_way hcheck hway).2 (by decide)⟩

/-- **A name that comes back.** A subcommand bears the name of the root, and the tree passes the
check since the name of the root is stored with a blank before it. -/
theorem padded_root_repeats :
    let sub : Command := { name := "a" }
    let root : Command := { name := " a", subcommands := [sub] }
    root.check = .ok () ∧ root.IsWay [sub] ∧ ¬((root :: [sub]).map label).Nodup := by
  intro sub root
  refine ⟨by decide, isWay_cons.mpr ⟨List.mem_singleton_self sub, isWay_nil sub⟩, by decide⟩

end ShellCompletion.Command
