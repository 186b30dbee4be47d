import ShellCompletion.Proofs.Model.Chain

/-!
# The walk, level by level

The queue of the walk does not know how deep it is in the tree. Still it serves one level after the
other: what stands in it is served before all that is put behind it (`visits_append`), so the walk
is the concatenation of levels, each of which lists what is below the one before
(`Command.turnsAt`). Every level takes at least one visit from those to come, so no tree has more
levels than visits.

A turn of the walk is kept here with the whole chain that led to it, which the queue reduces to its
spelling.

Main statements: `map_visit_walk`, the walk is the concatenation of the levels, and `mem_walk_iff`,
its turns are the alias chains.
-/

namespace ShellCompletion

/-- Numbers that are not looked at may be left out. -/
theorem flatMap_zipIdx {α β : Type} (list : List α) (f : α → List β) :
    (list.zipIdx.flatMap fun entry => f entry.1) = list.flatMap f := by
  have hlist : (list.zipIdx.map Prod.fst).flatMap f = list.flatMap f := by
    rw [List.zipIdx_map_fst]
  rw [← hlist, List.flatMap_map]

/-- A chain and the node at its end. -/
structure Turn where
  /-- The steps of the chain. -/
  steps : List (Nat × String)
  /-- The node at the end of the chain. -/
  node : Command

namespace Turn

/-- What the queue keeps of a turn. -/
def visit (turn : Turn) : Visit :=
  ⟨stepsPath turn.steps, turn.node⟩

/-- The turns that a turn brings about: the children in their order, once for each name, the long
name first. -/
def below (turn : Turn) : List Turn :=
  turn.node.subcommands.zipIdx.flatMap fun child =>
    child.1.typedNames.map fun name => ⟨turn.steps ++ [(child.2, name)], child.1⟩

/-- The turns below a turn make the visits below its visit. -/
theorem map_visit_below (turn : Turn) : turn.below.map visit = turn.visit.below := by
  rw [Visit.below, ← flatMap_zipIdx, below, List.map_flatMap]
  simp only [List.map_map, Function.comp_def, visit, stepsPath_append_singleton]

/-- Below a turn are the children of its node, each under each of its names. -/
theorem mem_below {turn t : Turn} :
    t ∈ turn.below ↔ ∃ i name, turn.node.subcommands[i]? = some t.node ∧ t.node.HasName name ∧
      t.steps = turn.steps ++ [(i, name)] := by
  obtain ⟨steps, sub⟩ := t
  simp only [below, List.mem_flatMap, List.mem_map, mk.injEq, Command.mem_typedNames, Prod.exists,
    List.mk_mem_zipIdx_iff_getElem?]
  constructor
  · rintro ⟨child, i, hi, name, hname, rfl, rfl⟩
    exact ⟨i, name, hi, hname, rfl⟩
  · rintro ⟨i, name, hi, hname, rfl⟩
    exact ⟨sub, i, hi, name, hname, rfl, rfl⟩

end Turn

namespace Command

/-- The turns at a depth: at depth zero the root, and then, for each turn of one level, the turns
below it. -/
def turnsAt (root : Command) : Nat → List Turn
  | 0 => [⟨[], root⟩]
  | depth + 1 => (root.turnsAt depth).flatMap Turn.below

/-- All turns, level by level. -/
def walk (root : Command) : List Turn :=
  (List.range root.visitCount).flatMap root.turnsAt

end Command

/-! ### A queue that is served in levels -/

/-- What stands in the queue is served before what is put behind it. -/
theorem visits_append (a b : List Visit) :
    visits (a ++ b) = a ++ visits (b ++ a.flatMap Visit.below) := by
  induction a generalizing b with
  | nil => simp
  | cons visit rest ih =>
    rw [List.cons_append, visits, List.append_assoc, ih, List.cons_append, List.flatMap_cons,
      List.append_assoc]

namespace Visit

/-- A visit brings about at least itself. -/
theorem visitCount_pos (visit : Visit) : 0 < visit.command.visitCount := by
  rw [visitCount_eq]
  omega

/-- A level calls for as many visits less as it has turns. -/
theorem total_flatMap_below (level : List Visit) :
    total (level.flatMap below) + level.length = total level := by
  induction level with
  | nil => rfl
  | cons visit rest ih =>
    rw [List.flatMap_cons, total_append, total_cons, visitCount_eq, List.length_cons, ← ih]
    omega

/-- A level that is not empty brings about at least one visit. -/
theorem total_pos {level : List Visit} (h : level ≠ []) : 0 < total level := by
  obtain ⟨visit, rest, rfl⟩ := List.exists_cons_of_ne_nil h
  rw [total_cons]
  exact Nat.add_pos_left visit.visitCount_pos _

end Visit

section levels

variable (root : Command)

/-- The visits of a level are those below the visits of the level before. -/
theorem map_visit_turnsAt_succ (depth : Nat) :
    (root.turnsAt (depth + 1)).map Turn.visit =
      ((root.turnsAt depth).map Turn.visit).flatMap Visit.below := by
  rw [Command.turnsAt, List.map_flatMap, List.flatMap_map]
  congr 1
  funext turn
  exact turn.map_visit_below

/-- The walk takes the turns at one depth before those below. -/
theorem visits_turnsAt (depth : Nat) :
    visits ((root.turnsAt depth).map Turn.visit) =
      (root.turnsAt depth).map Turn.visit ++
        visits ((root.turnsAt (depth + 1)).map Turn.visit) := by
  rw [map_visit_turnsAt_succ]
  simpa using visits_append ((root.turnsAt depth).map Turn.visit) []

/-- The walk begins with any number of levels. -/
theorem visits_turnsAt_zero (depth : Nat) :
    visits ((root.turnsAt 0).map Turn.visit) =
      ((List.range depth).flatMap root.turnsAt).map Turn.visit ++
        visits ((root.turnsAt depth).map Turn.visit) := by
  induction depth with
  | zero => rfl
  | succ depth ih =>
    rw [ih, visits_turnsAt, List.range_succ, List.flatMap_append, List.flatMap_singleton,
      List.map_append, List.append_assoc]

/-- Whatever the levels before a turn have taken is missing from the count of the root. -/
theorem total_turnsAt_add_le {depth : Nat} (h : root.turnsAt depth ≠ []) :
    Visit.total ((root.turnsAt depth).map Turn.visit) + depth ≤ root.visitCount := by
  induction depth with
  | zero => simp [Command.turnsAt, Turn.visit]
  | succ depth ih =>
    have hbefore : root.turnsAt depth ≠ [] := by
      intro hnil
      rw [Command.turnsAt, hnil] at h
      exact h rfl
    have hlength := List.length_pos_iff.mpr hbefore
    have htotal := Visit.total_flatMap_below ((root.turnsAt depth).map Turn.visit)
    have hbound := ih hbefore
    rw [← map_visit_turnsAt_succ, List.length_map] at htotal
    omega

/-- A level that is not empty is one of the levels of the walk. -/
theorem lt_visitCount_of_turnsAt_ne_nil {depth : Nat} (h : root.turnsAt depth ≠ []) :
    depth < root.visitCount := by
  have hvisits : (root.turnsAt depth).map Turn.visit ≠ [] := mt List.map_eq_nil_iff.mp h
  have htotal := Visit.total_pos hvisits
  have hbound := total_turnsAt_add_le root h
  omega

/-- **The walk goes level by level**, from the root on. -/
theorem map_visit_walk : root.walk.map Turn.visit = ⟨.root, root⟩ :: root.visits := by
  -- the levels are used up by then, so nothing is left behind the last of them
  have hlast : root.turnsAt root.visitCount = [] := by
    by_cases hnil : root.turnsAt root.visitCount = []
    · exact hnil
    · exact absurd (lt_visitCount_of_turnsAt_ne_nil root hnil) (Nat.lt_irrefl _)
  have hstart : visits ((root.turnsAt 0).map Turn.visit) = ⟨.root, root⟩ :: root.visits := by
    rw [Command.visits, Command.turnsAt, List.map_singleton, visits, List.nil_append]
    rfl
  have hwalk := visits_turnsAt_zero root root.visitCount
  rw [hlast, List.map_nil, visits, List.append_nil] at hwalk
  rw [← hstart, hwalk]
  rfl

/-! ### The turns are the chains -/

/-- The turns at a depth are the chains of that length. -/
theorem mem_turnsAt_iff {depth : Nat} {turn : Turn} :
    turn ∈ root.turnsAt depth ↔
      AliasChain root turn.steps turn.node ∧ turn.steps.length = depth := by
  constructor
  · intro hturn
    induction depth generalizing turn with
    | zero =>
      obtain rfl := List.mem_singleton.mp hturn
      exact ⟨.root, rfl⟩
    | succ depth ih =>
      obtain ⟨parent, hparent, hturn⟩ := List.mem_flatMap.mp hturn
      obtain ⟨i, name, hi, hname, hsteps⟩ := Turn.mem_below.mp hturn
      obtain ⟨hchain, hlength⟩ := ih hparent
      rw [hsteps]
      exact ⟨hchain.step hi hname, by simp [hlength]⟩
  · obtain ⟨steps, node⟩ := turn
    rintro ⟨hchain, rfl⟩
    dsimp only at hchain ⊢
    induction hchain with
    | root => exact List.mem_singleton.mpr rfl
    | @step steps parent sub i name hchain hi hname ih =>
      rw [List.length_append, List.length_singleton, Command.turnsAt]
      exact List.mem_flatMap.mpr ⟨_, ih, Turn.mem_below.mpr ⟨i, name, hi, hname, rfl⟩⟩

/-- **The turns of the walk are the alias chains.** -/
theorem mem_walk_iff {turn : Turn} : turn ∈ root.walk ↔ AliasChain root turn.steps turn.node := by
  rw [Command.walk, List.mem_flatMap]
  constructor
  · rintro ⟨depth, -, hturn⟩
    exact ((mem_turnsAt_iff root).mp hturn).1
  · intro hchain
    have hturn := (mem_turnsAt_iff root).mpr ⟨hchain, rfl⟩
    have hdepth := lt_visitCount_of_turnsAt_ne_nil root (List.ne_nil_of_mem hturn)
    exact ⟨_, List.mem_range.mpr hdepth, hturn⟩

end levels

end ShellCompletion
