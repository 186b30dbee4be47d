/-!
# Looking for one text inside another

Prefix and infix tests on texts, and the two cuts that words need: after the last occurrence of a
character, and at the first one. All of them look at the list of characters, so a law about lists
is a law about texts.
-/

namespace ShellCompletion.Text

/-- `part` is where `whole` begins. -/
def startsWith (whole part : String) : Bool :=
  part.toList.isPrefixOf whole.toList

/-- Starting with a text is having its characters for a prefix. -/
theorem startsWith_iff {whole part : String} :
    startsWith whole part = true ↔ part.toList <+: whole.toList := by
  simp [startsWith]

/-- `part` occurs in the list of characters as a block. -/
def occursIn (part : List Char) : List Char → Bool
  | [] => part.isEmpty
  | c :: rest => part.isPrefixOf (c :: rest) || occursIn part rest

/-- Occurring in a text is being an infix of it. -/
theorem occursIn_iff {part whole : List Char} : occursIn part whole = true ↔ part <:+: whole := by
  induction whole with
  | nil => simp [occursIn]
  | cons c rest ih => simp [occursIn, ih, List.infix_cons_iff]

/-- `part` occurs in `whole` as a block. -/
def contains (whole part : String) : Bool :=
  occursIn part.toList whole.toList

/-- The list cut behind the last `mark`: what comes before the cut (the mark included) and what
follows it. Without a mark the first part is empty. -/
def cutAfterLast (mark : Char) : List Char → List Char × List Char
  | [] => ([], [])
  | c :: rest =>
    match cutAfterLast mark rest with
    | ([], after) => if c = mark then ([c], after) else ([], c :: after)
    | (before, after) => (c :: before, after)

/-- The two parts of `cutAfterLast` give the list back. -/
theorem cutAfterLast_append (mark : Char) (cs : List Char) :
    (cutAfterLast mark cs).1 ++ (cutAfterLast mark cs).2 = cs := by
  induction cs with
  | nil => rfl
  | cons c rest ih =>
    simp only [cutAfterLast]
    split
    next after h =>
      rw [h] at ih
      split <;> simp_all
    next before after h =>
      rw [h] at ih
      simpa using ih

/-- Behind the cut there is no mark. -/
theorem not_mem_cutAfterLast (mark : Char) (cs : List Char) : mark ∉ (cutAfterLast mark cs).2 := by
  induction cs with
  | nil => exact List.not_mem_nil
  | cons c rest ih =>
    rw [cutAfterLast]
    split
    next after hrest =>
      rw [hrest] at ih
      split
      next => exact ih
      next hc => exact List.not_mem_cons_of_ne_of_not_mem (Ne.symm hc) ih
    next before after _ hrest =>
      rw [hrest] at ih
      exact ih

/-- Before the cut there is nothing, or a mark at the end. -/
theorem cutAfterLast_ends (mark : Char) (cs : List Char) :
    (cutAfterLast mark cs).1 = [] ∨ ∃ front, (cutAfterLast mark cs).1 = front ++ [mark] := by
  induction cs with
  | nil => exact .inl rfl
  | cons c rest ih =>
    rw [cutAfterLast]
    split
    next after hrest =>
      split
      next hc => exact .inr ⟨[], by rw [hc, List.nil_append]⟩
      next => exact .inl rfl
    next before after hne hrest =>
      rw [hrest] at ih
      obtain ⟨front, hfront⟩ := ih.resolve_left hne
      exact .inr ⟨c :: front, congrArg (c :: ·) hfront⟩

/-- The list cut at the first `mark`: what comes before it and what comes behind it. -/
def cutAtFirst? (mark : Char) : List Char → Option (List Char × List Char)
  | [] => none
  | c :: rest =>
    if c = mark then some ([], rest)
    else (cutAtFirst? mark rest).map fun parts => (c :: parts.1, parts.2)

/-- A cut at the first mark takes out exactly one mark, and none stands before it. -/
theorem eq_append_of_cutAtFirst? {mark : Char} {cs before after : List Char}
    (h : cutAtFirst? mark cs = some (before, after)) :
    cs = before ++ mark :: after ∧ mark ∉ before := by
  induction cs generalizing before with
  | nil => simp [cutAtFirst?] at h
  | cons c rest ih =>
    simp only [cutAtFirst?] at h
    split at h
    next hc => simp_all
    next hc =>
      obtain ⟨⟨b, a⟩, hb, he⟩ := Option.map_eq_some_iff.1 h
      obtain ⟨rfl, rfl⟩ := Prod.mk.inj he
      obtain ⟨rfl, hm⟩ := ih hb
      simp [hm, Ne.symm hc]

/-- The list is cut at the mark that has none before it. -/
theorem cutAtFirst?_append {mark : Char} {before : List Char} (h : mark ∉ before)
    (after : List Char) : cutAtFirst? mark (before ++ mark :: after) = some (before, after) := by
  induction before with
  | nil => rw [List.nil_append, cutAtFirst?, if_pos rfl]
  | cons c rest ih =>
    have hc : c ≠ mark := fun heq => h (heq ▸ List.mem_cons_self)
    rw [List.cons_append, cutAtFirst?, if_neg hc, ih fun hmem => h (List.mem_cons_of_mem c hmem)]
    rfl

end ShellCompletion.Text
