import ShellCompletion.Script.Template

/-!
# Templates line by line

No placeholder reaches across the end of a line, and neither does a pair of marks. So a template
that is made of lines may be filled in one line at a time, and what a script has at one of its lines
follows from this line of the frame alone.

* **A cut across a break** (`cutAtMarks?_append_cons`): a pair of marks lies on one side of a
  character that is no mark itself.
* **Filling in across a break** (`flatMap_render_append_cons`): neither do the names of placeholders
  reach across a character that they cannot have.
* **A line** (`renderLine_of_none`, `renderLine_slot`): one without marks is copied, and the first
  placeholder of another is filled in and left behind.

Main statement: `renderTemplate_ofLines`.
-/

namespace ShellCompletion.Script

/-- The first pair of marks lies before or behind a character that is no mark. -/
theorem cutAtMarks?_append_cons {c : Char} (hc : c ≠ '@') (front rest : List Char) :
    cutAtMarks? (front ++ c :: rest) =
      match cutAtMarks? front with
      | some (before, after) => some (before, after ++ c :: rest)
      | none => (cutAtMarks? rest).map fun cut => (front ++ c :: cut.1, cut.2) := by
  fun_induction cutAtMarks? front with
  | case1 after => rfl
  | case2 d front hpair ih =>
    -- `c` is no mark, so no pair of marks comes about where the texts meet
    have hnext : ∀ after, d = '@' → front ++ c :: rest = '@' :: after → False := by
      intro after hd hfront
      cases front with
      | nil => exact hc (List.cons.inj hfront).1
      | cons e front =>
        obtain ⟨rfl, -⟩ := List.cons.inj hfront
        exact hpair front hd rfl
    rw [List.cons_append, cutAtMarks?, ih]
    · cases cutAtMarks? front with
      | none => simp [Option.map_map, Function.comp_def]
      | some cut => rfl
    · exact hnext
  | case3 =>
    have hnext : ∀ after, c = '@' → rest = '@' :: after → False := fun _ hmark _ => hc hmark
    rw [List.nil_append, cutAtMarks?]
    · rfl
    · exact hnext

/-- The first pair of marks is the one behind a text without marks. -/
theorem cutAtMarks?_append_marks {front : List Char} (h : '@' ∉ front) (rest : List Char) :
    cutAtMarks? (front ++ '@' :: '@' :: rest) = some (front, rest) := by
  induction front with
  | nil => rfl
  | cons c front ih =>
    have hc : c ≠ '@' := fun heq => h (heq ▸ List.mem_cons_self)
    rw [List.cons_append, cutAtMarks?, ih fun hmem => h (List.mem_cons_of_mem c hmem)]
    · rfl
    · exact fun _ heq => absurd heq hc

/-- A segment of text is rendered as it is. -/
theorem flatMap_render_textSegment (values : List (String × String)) (content : List Char) :
    (textSegment content).flatMap (Segment.render values) = content := by
  unfold textSegment
  split <;> simp_all [Segment.render]

/-- A text without a pair of marks is taken apart into itself. -/
theorem parseTemplate_of_none {source : List Char} (h : cutAtMarks? source = none) :
    parseTemplate source = textSegment source := by
  rw [parseTemplate]
  split
  · rfl
  · simp_all

/-- Behind a placeholder the rest is taken apart. -/
theorem parseTemplate_of_slot {source before after name rest : List Char}
    (h : cutAtMarks? source = some (before, after))
    (hname : cutAtMarks? after = some (name, rest)) (hslot : isSlotName name = true) :
    parseTemplate source = textSegment before ++ .slot name :: parseTemplate rest := by
  rw [parseTemplate]
  split
  · simp_all
  next hcut =>
    obtain ⟨rfl, rfl⟩ := Prod.mk.inj (Option.some.inj (hcut.symm.trans h))
    split
    next hcut =>
      obtain ⟨rfl, rfl⟩ := Prod.mk.inj (Option.some.inj (hcut.symm.trans hname))
      rw [if_pos hslot]
    · simp_all

/-- A pair of marks that opens no placeholder stays where it is. -/
theorem parseTemplate_of_text {source before after : List Char}
    (h : cutAtMarks? source = some (before, after))
    (hname : ∀ name rest, cutAtMarks? after = some (name, rest) → isSlotName name = false) :
    parseTemplate source = .text (before ++ ['@', '@']) :: parseTemplate after := by
  rw [parseTemplate]
  split
  · simp_all
  next hcut =>
    obtain ⟨rfl, rfl⟩ := Prod.mk.inj (Option.some.inj (hcut.symm.trans h))
    split
    next hcut => simp [hname _ _ hcut]
    · rfl

/-- A text without a marked name is rendered as it is. -/
theorem flatMap_render_parse_of_none {values : List (String × String)} {source : List Char}
    (h : cutAtMarks? source = none) :
    (parseTemplate source).flatMap (Segment.render values) = source := by
  rw [parseTemplate_of_none h, flatMap_render_textSegment]

/-- Filling in goes on behind a placeholder. -/
theorem flatMap_render_parse_of_slot {values : List (String × String)}
    {source before after name rest : List Char} (h : cutAtMarks? source = some (before, after))
    (hname : cutAtMarks? after = some (name, rest)) (hslot : isSlotName name = true) :
    (parseTemplate source).flatMap (Segment.render values) =
      before ++ (Segment.slot name).render values ++
        (parseTemplate rest).flatMap (Segment.render values) := by
  rw [parseTemplate_of_slot h hname hslot, List.flatMap_append, flatMap_render_textSegment,
    List.flatMap_cons, List.append_assoc]

/-- Filling in goes on behind a pair of marks that opens no placeholder. -/
theorem flatMap_render_parse_of_text {values : List (String × String)}
    {source before after : List Char} (h : cutAtMarks? source = some (before, after))
    (hname : ∀ name rest, cutAtMarks? after = some (name, rest) → isSlotName name = false) :
    (parseTemplate source).flatMap (Segment.render values) =
      before ++ '@' :: '@' :: (parseTemplate after).flatMap (Segment.render values) := by
  rw [parseTemplate_of_text h hname]
  simp [Segment.render]

/-- A front that does not move the first cut is copied. -/
theorem flatMap_render_append_of_cut (values : List (String × String)) {front rest : List Char}
    (h : cutAtMarks? (front ++ rest) =
      (cutAtMarks? rest).map fun cut => (front ++ cut.1, cut.2)) :
    (parseTemplate (front ++ rest)).flatMap (Segment.render values) =
      front ++ (parseTemplate rest).flatMap (Segment.render values) := by
  rcases hrest : cutAtMarks? rest with _ | ⟨before, after⟩
  · rw [hrest, Option.map_none] at h
    rw [flatMap_render_parse_of_none h, flatMap_render_parse_of_none hrest]
  · rw [hrest, Option.map_some] at h
    by_cases hslot : ∃ name others, cutAtMarks? after = some (name, others) ∧ isSlotName name = true
    · obtain ⟨name, others, hname, hslot⟩ := hslot
      rw [flatMap_render_parse_of_slot h hname hslot,
        flatMap_render_parse_of_slot hrest hname hslot]
      simp only [List.append_assoc]
    · have htext : ∀ name others, cutAtMarks? after = some (name, others) →
          isSlotName name = false := by
        intro name others hname
        exact Bool.eq_false_iff.mpr fun hok => hslot ⟨name, others, hname, hok⟩
      rw [flatMap_render_parse_of_text h htext, flatMap_render_parse_of_text hrest htext,
        List.append_assoc]

/-- A name with a character that slots do not have is no name of a slot. -/
theorem isSlotName_eq_false {c : Char} {name : List Char} (hchar : isSlotChar c = false)
    (hmem : c ∈ name) : isSlotName name = false := by
  rw [isSlotName, Bool.and_eq_false_iff, List.all_eq_false]
  exact .inr ⟨c, hmem, Bool.eq_false_iff.mp hchar⟩

/-- There is no mark in the name of a placeholder. -/
theorem mark_not_mem_of_isSlotName {name : List Char} (h : isSlotName name = true) :
    '@' ∉ name := by
  intro hmem
  rw [isSlotName_eq_false (by decide) hmem] at h
  exact absurd h (by decide)

section

variable {c : Char} (hmark : c ≠ '@')

include hmark

/-- A pair of marks before the break is still the first one. -/
theorem cutAtMarks?_append_cons_of_some {front before after : List Char}
    (h : cutAtMarks? front = some (before, after)) (rest : List Char) :
    cutAtMarks? (front ++ c :: rest) = some (before, after ++ c :: rest) := by
  rw [cutAtMarks?_append_cons hmark, h]

/-- Where no placeholder is opened, none is opened if a break and more text follow: a name that ends
behind the break has the break in it. -/
theorem isSlotName_eq_false_of_cut_append {after : List Char} (hchar : isSlotChar c = false)
    (h : ∀ name rest, cutAtMarks? after = some (name, rest) → isSlotName name = false)
    (more name rest : List Char) (hname : cutAtMarks? (after ++ c :: more) = some (name, rest)) :
    isSlotName name = false := by
  rw [cutAtMarks?_append_cons hmark] at hname
  cases hcut : cutAtMarks? after with
  | some cut =>
    rw [hcut] at hname
    obtain ⟨rfl, -⟩ := Prod.mk.inj (Option.some.inj hname)
    exact h _ _ hcut
  | none =>
    rw [hcut] at hname
    obtain ⟨cut, -, hcut⟩ := Option.map_eq_some_iff.mp hname
    obtain ⟨rfl, -⟩ := Prod.mk.inj hcut
    exact isSlotName_eq_false hchar (List.mem_append_right after List.mem_cons_self)

/-- **Filling in across a break.** A character that is no mark and stands in no name parts a
template in two. -/
theorem flatMap_render_append_cons (values : List (String × String)) (hchar : isSlotChar c = false)
    (front rest : List Char) :
    (parseTemplate (front ++ c :: rest)).flatMap (Segment.render values) =
      (parseTemplate front).flatMap (Segment.render values) ++
        c :: (parseTemplate rest).flatMap (Segment.render values) := by
  fun_induction parseTemplate front with
  | case1 front h =>
    have hcut : cutAtMarks? ((front ++ [c]) ++ rest) =
        (cutAtMarks? rest).map fun cut => ((front ++ [c]) ++ cut.1, cut.2) := by
      simpa [h] using cutAtMarks?_append_cons hmark front rest
    have hcopy := flatMap_render_append_of_cut values hcut
    rw [← List.append_cons, ← List.append_cons] at hcopy
    rw [flatMap_render_textSegment, hcopy]
  | case2 front before after h name others h' hslot ih =>
    have hcut := cutAtMarks?_append_cons_of_some hmark h rest
    have hcut' := cutAtMarks?_append_cons_of_some hmark h' rest
    rw [flatMap_render_parse_of_slot hcut hcut' hslot, ih]
    simp [flatMap_render_textSegment]
  | case3 front before after h name others h' hslot ih =>
    -- the text behind the marks is no name; going on with `c`, it cannot become one
    have hcut := cutAtMarks?_append_cons_of_some hmark h rest
    have hnone : ∀ name others, cutAtMarks? after = some (name, others) →
        isSlotName name = false := by
      intro name' others' hname
      obtain ⟨rfl, -⟩ := Prod.mk.inj (Option.some.inj (h'.symm.trans hname))
      exact Bool.eq_false_iff.mpr hslot
    rw [flatMap_render_parse_of_text hcut
      (isSlotName_eq_false_of_cut_append hmark hchar hnone rest), ih]
    simp [Segment.render]
  | case4 front before after h h' ih =>
    have hcut := cutAtMarks?_append_cons_of_some hmark h rest
    have hnone : ∀ name others, cutAtMarks? after = some (name, others) →
        isSlotName name = false := by
      intro name' others' hname
      simp [h'] at hname
    rw [flatMap_render_parse_of_text hcut
      (isSlotName_eq_false_of_cut_append hmark hchar hnone rest), ih]
    simp [Segment.render]

end

/-- A template with one of its lines filled in. -/
def renderLine (values : List (String × String)) (line : String) : String :=
  renderTemplate (parseTemplate line.toList) values

/-- The characters of a rendered line are those of its segments. -/
theorem toList_renderLine (values : List (String × String)) (line : String) :
    (renderLine values line).toList =
      (parseTemplate line.toList).flatMap (Segment.render values) := by
  rw [renderLine, renderTemplate, String.toList_ofList]

/-- What stands at a placeholder: the first value of its name, or nothing. -/
def filledIn (values : List (String × String)) (name : String) : String :=
  match values.find? fun value => value.1 = name with
  | some value => value.2
  | none => ""

/-- A slot is rendered as the value that is filled in. -/
theorem render_slot (values : List (String × String)) (name : String) :
    (Segment.slot name.toList).render values = (filledIn values name).toList := by
  rw [Segment.render, filledIn, String.ofList_toList]
  cases values.find? fun value => value.1 = name with
  | none => rfl
  | some value => rfl

/-- A line without a pair of marks is copied. -/
theorem renderLine_of_none {values : List (String × String)} {line : String}
    (h : cutAtMarks? line.toList = none) : renderLine values line = line := by
  rw [← String.toList_inj, toList_renderLine, flatMap_render_parse_of_none h]

/-- A line with a placeholder behind a text without marks. -/
theorem renderLine_slot (values : List (String × String)) {front name back : String}
    (hfront : '@' ∉ front.toList) (hname : isSlotName name.toList = true) :
    renderLine values (front ++ "@@" ++ name ++ "@@" ++ back) =
      front ++ filledIn values name ++ renderLine values back := by
  have hline : (front ++ "@@" ++ name ++ "@@" ++ back).toList =
      front.toList ++ '@' :: '@' :: (name.toList ++ '@' :: '@' :: back.toList) := by
    simp
  rw [← String.toList_inj, toList_renderLine, hline,
    flatMap_render_parse_of_slot (cutAtMarks?_append_marks hfront _)
      (cutAtMarks?_append_marks (mark_not_mem_of_isSlotName hname) _) hname, render_slot,
    ← toList_renderLine, String.toList_append, String.toList_append]

/-- A line with one placeholder. -/
theorem renderLine_single_slot {values : List (String × String)} {front name back : String}
    (hfront : '@' ∉ front.toList) (hname : isSlotName name.toList = true)
    (hback : cutAtMarks? back.toList = none) :
    renderLine values (front ++ "@@" ++ name ++ "@@" ++ back) =
      front ++ filledIn values name ++ back := by
  rw [renderLine_slot values hfront hname, renderLine_of_none hback]

/-! ### Lines -/

/-- A line ends before the others begin. -/
theorem ofLines_cons (line : String) (lines : List String) :
    Text.ofLines (line :: lines) = line ++ "\n" ++ Text.ofLines lines := by
  simp [Text.ofLines]

/-- Lines in two parts are one text after the other. -/
theorem ofLines_append (lines others : List String) :
    Text.ofLines (lines ++ others) = Text.ofLines lines ++ Text.ofLines others := by
  induction lines with
  | nil => exact String.empty_append.symm
  | cons line lines ih =>
    rw [List.cons_append, ofLines_cons, ih, ofLines_cons, String.append_assoc, String.append_assoc,
      String.append_assoc]

/-- The characters of a line end before those of the others begin. -/
theorem toList_ofLines_cons (line : String) (lines : List String) :
    (Text.ofLines (line :: lines)).toList = line.toList ++ '\n' :: (Text.ofLines lines).toList := by
  rw [ofLines_cons, String.toList_append, String.toList_append, List.append_assoc]
  rfl

/-- Lines without a line break in them are parted again. -/
theorem splitOn_ofLines {lines : List String} (h : ∀ line ∈ lines, '\n' ∉ line.toList)
    (rest : List Char) :
    ((Text.ofLines lines).toList ++ rest).splitOn '\n' =
      lines.map String.toList ++ rest.splitOn '\n' := by
  induction lines with
  | nil => rfl
  | cons line lines ih =>
    rw [toList_ofLines_cons, List.append_assoc, List.cons_append,
      List.splitOn_append_cons_self_of_not_mem (h line List.mem_cons_self),
      ih fun other hother => h other (List.mem_cons_of_mem line hother)]
    rfl

/-- **A template of lines is filled in line by line.** -/
theorem renderTemplate_ofLines (values : List (String × String)) (lines : List String) :
    renderTemplate (parseTemplate (Text.ofLines lines).toList) values =
      Text.ofLines (lines.map (renderLine values)) := by
  induction lines with
  | nil =>
    exact congrArg String.ofList (flatMap_render_parse_of_none rfl)
  | cons line lines ih =>
    rw [← String.toList_inj] at ih ⊢
    rw [List.map_cons, toList_ofLines_cons, toList_ofLines_cons, ← ih, renderTemplate,
      String.toList_ofList, flatMap_render_append_cons (by decide) values (by decide)]
    simp [renderLine, renderTemplate]

end ShellCompletion.Script
