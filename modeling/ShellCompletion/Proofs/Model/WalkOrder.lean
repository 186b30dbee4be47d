import ShellCompletion.Proofs.Model.Levels

/-!
# The order of the walk

When the walk comes to a chain can be told from the chain (`WalkBefore`): shorter chains come first,
and chains of one length in the order of the first steps in which they differ. Earlier children come
first, and of the two names of a child the long one.

A chain is walked twice if the short name of a command repeats its long one, and then all that is
below is walked twice as well. So the walk is not sorted. But what has its turn before its time has
had one already: whatever has not occurred up to a certain turn comes later in the order as well
(`InOrder`). That is all that counts where the first occurrence does.

Main statement: `inOrder_walk`.
-/

namespace ShellCompletion

/-! ### Lists in order, but for what comes again -/

/-- Behind an entry of the list only such entries stand that come later in the order, that are the
same, or that have occurred before. -/
def InOrder {α : Type} (before : α → α → Prop) (list : List α) : Prop :=
  ∀ pre x post, list = pre ++ x :: post → ∀ y ∈ list, y ∈ pre ∨ y = x ∨ before x y

/-- An entry of a concatenation stands in one of its blocks. -/
theorem flatMap_eq_append_cons {α β : Type} {f : α → List β} {list : List α} {pre post : List β}
    {y : β} (h : list.flatMap f = pre ++ y :: post) :
    ∃ before x after start rest, list = before ++ x :: after ∧ f x = start ++ y :: rest ∧
      pre = before.flatMap f ++ start := by
  induction list generalizing pre with
  | nil => simp at h
  | cons first others ih =>
    have hlater : ∀ skipped, pre = f first ++ skipped → others.flatMap f = skipped ++ y :: post →
        ∃ before x after start rest, first :: others = before ++ x :: after ∧
          f x = start ++ y :: rest ∧ pre = before.flatMap f ++ start := by
      rintro skipped rfl hothers
      obtain ⟨before, x, after, start, rest, rfl, hx, rfl⟩ := ih hothers
      exact ⟨first :: before, x, after, start, rest, rfl, hx, by simp⟩
    rw [List.flatMap_cons] at h
    -- the first block ends before the entry, or the entry stands in it
    rcases List.append_eq_append_iff.mp h with ⟨skipped, hpre, hothers⟩ | ⟨start, hfirst, hrest⟩
    · exact hlater skipped hpre hothers
    · cases start with
      | nil => exact hlater [] (by simpa using hfirst.symm) hrest.symm
      | cons c start =>
        obtain ⟨rfl, -⟩ := List.cons.inj hrest
        exact ⟨[], first, others, pre, start, rfl, hfirst, rfl⟩

namespace InOrder

variable {α β : Type} {before : α → α → Prop} {list : List α}

/-- A list in which each entry comes before those behind it, or equals them, is in order. -/
theorem of_pairwise (h : list.Pairwise fun x y => y = x ∨ before x y) : InOrder before list := by
  rintro pre x post rfl y hy
  rcases List.mem_append.mp hy with hy | hy
  · exact .inl hy
  · rcases List.mem_cons.mp hy with rfl | hy
    · exact .inr (.inl rfl)
    · obtain ⟨-, hpost, -⟩ := List.pairwise_append.mp h
      exact .inr ((List.pairwise_cons.mp hpost).1 y hy)

/-- Blocks that are in order make a list in order if the entries they are made of are. -/
theorem flatMap {after : β → β → Prop} {f : α → List β} (hlist : InOrder before list)
    (hblock : ∀ x ∈ list, InOrder after (f x))
    (hacross : ∀ x ∈ list, ∀ x' ∈ list, before x x' → ∀ y ∈ f x, ∀ y' ∈ f x', after y y') :
    InOrder after (list.flatMap f) := by
  intro pre y post hsplit y' hy'
  obtain ⟨early, x, late, start, rest, rfl, hx, rfl⟩ := flatMap_eq_append_cons hsplit
  have hmem : x ∈ early ++ x :: late := List.mem_append_right _ List.mem_cons_self
  have hy : y ∈ f x := by
    rw [hx]
    exact List.mem_append_right _ List.mem_cons_self
  obtain ⟨x', hx', hin⟩ := List.mem_flatMap.mp hy'
  rcases hlist early x late rfl x' hx' with hearly | rfl | hlater
  · exact .inl (List.mem_append_left _ (List.mem_flatMap.mpr ⟨x', hearly, hin⟩))
  · rcases hblock x' hmem start y rest hx y' hin with hstart | hsame
    · exact .inl (List.mem_append_right _ hstart)
    · exact .inr hsame
  · exact .inr (.inr (hacross x hmem x' hx' hlater y hy y' hin))

end InOrder

/-- The entries of a list are numbered in their order. -/
theorem inOrder_zipIdx {α : Type} (list : List α) :
    InOrder (fun a b : α × Nat => a.2 < b.2) list.zipIdx := by
  apply InOrder.of_pairwise
  have hnumbers : (list.zipIdx.map Prod.snd).Pairwise (· < ·) := by
    rw [List.zipIdx_map_snd]
    exact List.pairwise_lt_range'
  exact (List.pairwise_map.mp hnumbers).imp Or.inr

/-! ### The order of chains -/

/-- Of two steps from the same node the first is taken before the second: it goes to an earlier
child, or to the same child by its long name while the second does not. -/
def Command.TakesFirst (parent : Command) (a b : Nat × String) : Prop :=
  a.1 < b.1 ∨
    a.1 = b.1 ∧ a.2 ≠ b.2 ∧ ∃ sub, parent.subcommands[a.1]? = some sub ∧ sub.name = a.2

/-- The walk comes to the first chain before it comes to the second. -/
inductive WalkBefore (root : Command) : List (Nat × String) → List (Nat × String) → Prop
  /-- Shorter chains come first. -/
  | shorter {steps steps' : List (Nat × String)} :
    steps.length < steps'.length → WalkBefore root steps steps'
  /-- Chains of one length come in the order of the first steps in which they differ. -/
  | differ {steps rest rest' : List (Nat × String)} {parent : Command} {a b : Nat × String} :
    AliasChain root steps parent → parent.TakesFirst a b → rest.length = rest'.length →
      WalkBefore root (steps ++ a :: rest) (steps ++ b :: rest')

/-- Of two steps only one can be taken first. -/
theorem Command.TakesFirst.asymm {parent : Command} {a b : Nat × String}
    (h : parent.TakesFirst a b) : ¬parent.TakesFirst b a := by
  rcases h with hlt | ⟨heq, hne, sub, hsub, hname⟩
  · rintro (hlt' | ⟨heq', -⟩) <;> omega
  · rintro (hlt' | ⟨-, -, sub', hsub', hname'⟩)
    · omega
    · rw [heq, hsub'] at hsub
      obtain rfl := Option.some.inj hsub
      exact hne (hname.symm.trans hname')

/-- A step is not taken before itself. -/
theorem Command.TakesFirst.ne {parent : Command} {a b : Nat × String}
    (h : parent.TakesFirst a b) : a ≠ b := by
  rintro rfl
  exact h.asymm h

/-- Two lists that differ behind a common beginning have no other beginning in common behind which
they differ. -/
theorem beginning_unique {α : Type} {pre pre' rest rest' others others' : List α} {a b c d : α}
    (ha : pre ++ a :: rest = pre' ++ c :: others) (hb : pre ++ b :: rest' = pre' ++ d :: others')
    (hab : a ≠ b) (hcd : c ≠ d) : pre = pre' ∧ a = c ∧ b = d := by
  induction pre generalizing pre' with
  | nil =>
    cases pre' with
    | nil => exact ⟨rfl, (List.cons.inj ha).1, (List.cons.inj hb).1⟩
    | cons x pre' => exact absurd ((List.cons.inj ha).1.trans (List.cons.inj hb).1.symm) hab
  | cons x pre ih =>
    cases pre' with
    | nil => exact absurd ((List.cons.inj ha).1.symm.trans (List.cons.inj hb).1) hcd
    | cons y pre' =>
      obtain ⟨rfl, hrest⟩ := List.cons.inj ha
      obtain ⟨rfl, hac, hbd⟩ := ih hrest (List.cons.inj hb).2
      exact ⟨rfl, hac, hbd⟩

/-- Of two chains only one comes first. -/
theorem WalkBefore.asymm {root : Command} {steps steps' : List (Nat × String)}
    (h : WalkBefore root steps steps') : ¬WalkBefore root steps' steps := by
  intro h'
  cases h with
  | shorter hlt =>
    cases h' with
    | shorter hlt' => omega
    | differ _ _ hlength =>
      simp only [List.length_append, List.length_cons] at hlt
      omega
  | @differ pre rest rest' parent a b hchain hfirst hlength =>
    generalize hsteps : pre ++ a :: rest = steps at h'
    generalize hsteps' : pre ++ b :: rest' = steps' at h'
    cases h' with
    | shorter hlt =>
      subst hsteps hsteps'
      simp only [List.length_append, List.length_cons] at hlt
      omega
    | differ hchain' hfirst' =>
      -- the chains part in one place only, and there one of the two steps is taken first
      obtain ⟨rfl, rfl, rfl⟩ := beginning_unique hsteps hsteps' hfirst.ne hfirst'.ne.symm
      obtain rfl := hchain.node_eq_of_map_fst_eq hchain' rfl
      exact hfirst.asymm hfirst'

/-- The order of two chains decides on whatever goes on from them. -/
theorem WalkBefore.append {root : Command} {steps steps' : List (Nat × String)}
    (h : WalkBefore root steps steps') (a b : Nat × String) :
    WalkBefore root (steps ++ [a]) (steps' ++ [b]) := by
  cases h with
  | shorter hlength => exact .shorter (by simpa using hlength)
  | differ hchain hfirst hlength =>
    rw [List.append_assoc, List.append_assoc]
    exact .differ hchain hfirst (by simpa using hlength)

/-- The long name of a command is typed first. -/
theorem Command.pairwise_typedNames (command : Command) :
    command.typedNames.Pairwise fun a b => b = a ∨ command.name = a ∧ a ≠ b := by
  have hsingle : ∀ name : Option String,
      name.toList.Pairwise fun a b => b = a ∨ command.name = a ∧ a ≠ b := by
    intro name
    cases name with
    | none => exact List.Pairwise.nil
    | some name => exact List.pairwise_singleton _ _
  refine List.pairwise_append.mpr ⟨hsingle _, hsingle _, ?_⟩
  intro a ha b hb
  rw [Option.mem_toList, present_eq_some_iff] at ha
  by_cases heq : b = a
  · exact .inl heq
  · exact .inr ⟨Option.some.inj ha.2, Ne.symm heq⟩

section walk

variable {root : Command}

/-- The turns below a turn are in order. -/
theorem Turn.inOrder_below {turn : Turn} (hchain : AliasChain root turn.steps turn.node) :
    InOrder (fun t t' => WalkBefore root t.steps t'.steps) turn.below := by
  refine (inOrder_zipIdx _).flatMap ?_ ?_
  · rintro ⟨sub, i⟩ hsub
    rw [List.mk_mem_zipIdx_iff_getElem?] at hsub
    refine InOrder.of_pairwise (List.pairwise_map.mpr (sub.pairwise_typedNames.imp ?_))
    rintro a b (rfl | ⟨hname, hne⟩)
    · exact .inl rfl
    · exact .inr (.differ hchain (.inr ⟨rfl, hne, sub, hsub, hname⟩) rfl)
  · rintro ⟨sub, i⟩ - ⟨sub', j⟩ - hij t ht t' ht'
    obtain ⟨a, -, rfl⟩ := List.mem_map.mp ht
    obtain ⟨b, -, rfl⟩ := List.mem_map.mp ht'
    exact .differ hchain (.inl hij) rfl

/-- Each level is in order. -/
theorem inOrder_turnsAt (depth : Nat) :
    InOrder (fun t t' => WalkBefore root t.steps t'.steps) (root.turnsAt depth) := by
  induction depth with
  | zero => exact .of_pairwise (List.pairwise_singleton _ _)
  | succ depth ih =>
    refine ih.flatMap ?_ ?_
    · intro turn hturn
      exact turn.inOrder_below ((mem_turnsAt_iff root).mp hturn).1
    · intro turn _ turn' _ hbefore t ht t' ht'
      obtain ⟨i, a, -, -, hsteps⟩ := Turn.mem_below.mp ht
      obtain ⟨j, b, -, -, hsteps'⟩ := Turn.mem_below.mp ht'
      rw [hsteps, hsteps']
      exact hbefore.append (i, a) (j, b)

/-- **The walk is in order**, but for chains that it has come to before. -/
theorem inOrder_walk : InOrder (fun t t' => WalkBefore root t.steps t'.steps) root.walk := by
  have hrange : InOrder (· < ·) (List.range root.visitCount) :=
    .of_pairwise (List.pairwise_lt_range.imp Or.inr)
  refine hrange.flatMap (fun depth _ => inOrder_turnsAt depth) ?_
  intro depth _ depth' _ hlt t ht t' ht'
  obtain ⟨-, rfl⟩ := (mem_turnsAt_iff root).mp ht
  obtain ⟨-, rfl⟩ := (mem_turnsAt_iff root).mp ht'
  exact .shorter hlt

end walk

end ShellCompletion
