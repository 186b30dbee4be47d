import Mathlib.Algebra.BigOperators.Ring.List
import Mathlib.Algebra.Ring.Nat
import ShellCompletion.Model.Collect
import ShellCompletion.Proofs.Model.Contexts
import ShellCompletion.Proofs.Model.Levels

/-!
# How long the walk takes

The queue of the walk may grow at every turn: for one visit that is taken there are up to two for
each child of it that are put at the end. What falls is the number of visits that those in the queue
still call for, by one at each turn. So the loop ends, and the number of its turns is known before
it begins.

* **The loop** (`Serving.turn?`, `Serving.after?`): one turn, and the state after a number of turns.
  The invariant of a whole run is `after?_total`.
* **The levels** (`Command.level`): the entries of one level list the children of those of the level
  before, in their order.
* **Counting nodes** (`Command.waysDown`): a node has as many visits as there are choices of one
  name for each node on the way to it (`choices_waysDown`).

Main statement: `loop_takes_levels`, for every tree.
-/

namespace ShellCompletion

/-! ### The loop -/

/-- The state of the loop that serves the queue. -/
structure Serving where
  /-- The visits that have been taken from the queue, the first one first. -/
  taken : List Visit
  /-- The visits that wait. -/
  queue : List Visit

namespace Serving

/-- One turn: the first visit is taken from the queue, and those below it are put at the end. When
the queue is empty the loop has ended. -/
def turn? : Serving → Option Serving
  | ⟨_, []⟩ => none
  | ⟨taken, visit :: queue⟩ => some ⟨taken ++ [visit], queue ++ visit.below⟩

/-- The state after a number of turns, if the loop does not end before. -/
def after? (state : Serving) : Nat → Option Serving
  | 0 => some state
  | turns + 1 => state.turn?.bind fun next => next.after? turns

/-- The loop begins with the visits of the children of the root. -/
def start (root : Command) : Serving :=
  ⟨[], Visit.below ⟨.root, root⟩⟩

/-- After as many turns as the queue calls for it is empty, and its visits have been taken. -/
theorem after?_total (taken queue : List Visit) :
    (⟨taken, queue⟩ : Serving).after? (Visit.total queue) = some ⟨taken ++ visits queue, []⟩ := by
  fun_induction visits queue generalizing taken with
  | case1 => rw [Visit.total_nil, after?, List.append_nil]
  | case2 visit queue ih =>
    have hturn : Visit.total (visit :: queue) = Visit.total (queue ++ visit.below) + 1 := by
      rw [Visit.total_cons, Visit.visitCount_eq, Visit.total_append]
      omega
    rw [hturn, after?, turn?, Option.bind_some, ih, List.append_assoc, List.singleton_append]

end Serving

/-! ### The levels -/

/-- The entries for the children of a command at a place: the children in their order, each of them
once for each name that is not empty, the long name before the short one. -/
def Command.childEntries (command : Command) (path : ContextPath) : List Visit :=
  command.subcommands.flatMap fun sub =>
    (if sub.name = "" then [] else [⟨path.child sub.name, sub⟩]) ++
      match sub.short with
      | none => []
      | some short => if short = "" then [] else [⟨path.child short, sub⟩]

/-- The entries of a level: at level zero the root, and then, for each entry of one level in turn,
those for its children. -/
def Command.level (root : Command) : Nat → List Visit
  | 0 => [⟨.root, root⟩]
  | k + 1 => (root.level k).flatMap fun entry => entry.command.childEntries entry.path

/-- A name makes one entry, and an empty one makes none. -/
theorem toList_present_map {α : Type} (name : String) (f : String → α) :
    (present (some name)).toList.map f = if name = "" then [] else [f name] := by
  by_cases h : name = "" <;> simp [present, Option.filter_some, h]

/-- The visits below a visit are made from the names of the children. -/
theorem Visit.below_eq_childEntries (visit : Visit) :
    visit.below = visit.command.childEntries visit.path := by
  rw [below, Command.childEntries]
  refine List.flatMap_congr fun sub _ => ?_
  rw [Command.typedNames, List.map_append, toList_present_map]
  cases sub.short with
  | none => rfl
  | some short => rw [toList_present_map]

section levels

variable (root : Command)

/-- The levels of the tree are the turns at each depth. -/
theorem level_eq_map_turnsAt (k : Nat) : root.level k = (root.turnsAt k).map Turn.visit := by
  induction k with
  | zero => rfl
  | succ k ih =>
    rw [Command.level, map_visit_turnsAt_succ, ← ih]
    exact List.flatMap_congr fun entry _ => entry.below_eq_childEntries.symm

/-- The count of visits has the one of the root besides those of the walk. -/
theorem visitCount_eq_length_add_one : root.visitCount = root.visits.length + 1 := by
  have hroot : root.visitCount = 1 + Visit.total (Visit.below ⟨.root, root⟩) :=
    Visit.visitCount_eq ⟨.root, root⟩
  rw [Command.visits, length_visits, hroot, Nat.add_comm]

/-- There are no more levels than visits. -/
theorem level_eq_nil {k : Nat} (h : root.visits.length < k) : root.level k = [] := by
  rw [level_eq_map_turnsAt]
  by_contra hlevel
  have hturns : root.turnsAt k ≠ [] := mt (congrArg (List.map Turn.visit)) hlevel
  have hbound := lt_visitCount_of_turnsAt_ne_nil root hturns
  rw [visitCount_eq_length_add_one] at hbound
  omega

/-- The walk takes the levels one after the other. -/
theorem visits_eq_flatMap_level :
    root.visits = (List.range root.visits.length).flatMap fun k => root.level (k + 1) := by
  have hwalk := map_visit_walk root
  rw [Command.walk, visitCount_eq_length_add_one, List.map_flatMap, List.range_succ_eq_map,
    List.flatMap_cons, List.flatMap_map] at hwalk
  simp only [← level_eq_map_turnsAt] at hwalk
  exact (List.cons.inj hwalk).2.symm

end levels

/-! ### Counting nodes -/

namespace Command

/-- The number of names of a command that are not empty. -/
def nameCount (command : Command) : Nat :=
  (if command.name = "" then 0 else 1) + if command.short.getD "" = "" then 0 else 1

mutual

/-- The ways from a command down to the commands below it, one for each of them. A way lists the
commands on it down to its end, without the one at which it begins. -/
def waysDown : Command → List (List Command)
  | ⟨_, _, _, subs⟩ => waysDownAll subs

/-- The ways that begin with a step to one of the commands in the list. -/
def waysDownAll : List Command → List (List Command)
  | [] => []
  | sub :: rest => ([sub] :: sub.waysDown.map (sub :: ·)) ++ waysDownAll rest

end

/-- As many names can be typed for a command as it has names that are not empty. -/
theorem length_typedNames (command : Command) : command.typedNames.length = command.nameCount := by
  have hlength : ∀ name, (present (some name)).toList.length = if name = "" then 0 else 1 := by
    intro name
    by_cases h : name = "" <;> simp [present, Option.filter_some, h]
  rw [typedNames, nameCount, List.length_append, hlength]
  cases command.short with
  | none => rfl
  | some short => rw [hlength, Option.getD_some]

/-- The sum, over ways, of the products of the numbers of names along each of them. -/
def choices (ways : List (List Command)) : Nat :=
  (ways.map fun way => (way.map nameCount).prod).sum

/-- Choices over ways in two lists add up. -/
theorem choices_append (ways others : List (List Command)) :
    choices (ways ++ others) = choices ways + choices others := by
  rw [choices, choices, choices, List.map_append, List.sum_append]

/-- The ways that go through a command: to itself, or on to a command below it. -/
theorem choices_through (sub : Command) (ways : List (List Command)) :
    choices ([sub] :: ways.map (sub :: ·)) = sub.nameCount * (1 + choices ways) := by
  simp only [choices, List.map_cons, List.map_map, Function.comp_def, List.sum_cons, List.prod_cons,
    List.map_nil, List.prod_nil]
  rw [List.sum_map_mul_left, Nat.mul_add]

mutual

/-- One way to stay and the choices on all ways down are the visits that one visit brings about. -/
theorem choices_waysDown (command : Command) :
    1 + choices command.waysDown = command.visitCount := by
  obtain ⟨name, short, flags, subs⟩ := command
  rw [waysDown, visitCount, choices_waysDownAll subs]

/-- The choices on all ways into a list are the visits that it brings about. -/
theorem choices_waysDownAll (subs : List Command) :
    choices (waysDownAll subs) = visitCountBelow subs := by
  cases subs with
  | nil => rfl
  | cons sub rest =>
    rw [waysDownAll, choices_append, choices_through, choices_waysDown sub,
      choices_waysDownAll rest, visitCountBelow, length_typedNames]

end

end Command

/-! ### The places -/

/-- There are no more places than visits, besides the root. -/
theorem contextCount_le (root : Command) : root.model.contextCount ≤ root.visits.length + 1 := by
  have hkeys : root.model.contexts.keys ⊆ root.visits.map Visit.path := by
    intro path hpath
    rw [Std.TreeMap.mem_keys, Command.model, Visit.mem_foldl_addContext] at hpath
    rcases hpath with hvisit | hempty
    · exact List.mem_map.mpr hvisit
    · exact absurd hempty Std.TreeMap.not_mem_emptyc
  have hlength := (List.subperm_of_subset Std.TreeMap.nodup_keys hkeys).length_le
  rw [Std.TreeMap.length_keys, List.length_map] at hlength
  exact Nat.succ_le_succ hlength

/-- **The walk ends, and it goes level by level.** For every tree the loop that serves the queue
comes to an empty queue after a number of turns. What it has taken by then, one visit at each turn,
are the levels one after the other, as far as there are any; from them the model is made. The
number of turns is the sum, over all nodes below the root, of the products of the numbers of names
along the way to the node, and apart from the root there are no more places than that. -/
theorem loop_takes_levels (root : Command) :
    ∃ turns taken, (Serving.start root).after? turns = some ⟨taken, []⟩ ∧
      taken = root.visits ∧ taken.length = turns ∧
      (∃ depth, (∀ k, depth < k → root.level k = []) ∧
        taken = (List.range depth).flatMap fun k => root.level (k + 1)) ∧
      turns = (root.waysDown.map fun way => (way.map Command.nameCount).prod).sum ∧
      root.model.contextCount ≤ turns + 1 := by
  have hrun := Serving.after?_total [] (Visit.below ⟨.root, root⟩)
  rw [← length_visits, List.nil_append] at hrun
  have hcount : root.visits.length = Command.choices root.waysDown := by
    have hchoices := Command.choices_waysDown root
    rw [visitCount_eq_length_add_one] at hchoices
    omega
  exact ⟨root.visits.length, root.visits, hrun, rfl, rfl,
    ⟨root.visits.length, fun k => level_eq_nil root, visits_eq_flatMap_level root⟩, hcount,
    contextCount_le root⟩

end ShellCompletion
