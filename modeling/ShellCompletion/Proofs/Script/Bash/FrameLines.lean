import ShellCompletion.Proofs.Script.Bash.Declarations

/-!
# The lines around the tables

Most lines of the frame have nothing to do with the tables of a script. That they declare nothing
themselves, whatever they are filled in with, is seen from their text alone: it says where they are
filled in, and what they begin with.

* **What is seen** (`isPlain`), and that it is seen of all those lines (`otherLines_checked`).
* **What comes of it** (`passes_render_of_isInline`, `idle_render_of_isOther`).

Main statement: `declares_otherLines`.
-/

namespace ShellCompletion.Script.Bash

/-! ### Lines of the frame -/

/-- The placeholders whose values are parts of lines. -/
def inlineSlots : List String :=
  ["IDENT", "PROGRAM", "FUZZY_ENABLED", "MAX_CANDIDATES", "MIN_PATTERN_LENGTH", "SCORE_THRESHOLD",
    "MAX_RESULTS", "CACHE_MAX_SIZE"]

/-- The text has no newline in it, and all of its backslashes stand before another character. -/
def isClosed : List Char → Bool
  | [] => true
  | '\\' :: _ :: rest => isClosed rest
  | c :: rest => c != '\n' && c != '\\' && isClosed rest

/-- The line has only placeholders for parts of lines, not more than the given number, and the text
around them is closed. -/
def isInline : Nat → List Char → Bool
  | 0, source => cutAtMarks? source == none && isClosed source
  | slots + 1, source =>
    match cutAtMarks? source with
    | none => isClosed source
    | some (before, after) =>
      match cutAtMarks? after with
      | some (name, rest) =>
        isClosed before && inlineSlots.contains (String.ofList name) && isInline slots rest
      | none => false

/-- Before its first placeholder the line has gone another way than a declaration. -/
def isOther (source : List Char) : Bool :=
  fronts.all fun front =>
    match cutAtMarks? source with
    | none => !front.toList.isPrefixOf (unindent source)
    | some (before, _) =>
      !front.toList.isPrefixOf (unindent before) && !(unindent before).isPrefixOf front.toList

/-- The line is one that declares no table and no array, whatever it is filled in with. -/
def isPlain (source : List Char) : Bool :=
  isInline 3 source && isOther source

/-- The lines of the frame that stand between the tables. -/
def linesBetween : List String :=
  ["# \"context|flag\" -> value kind",
    "# \"context|flag\" -> index of its _@@IDENT@@_enum_N array", ""]

/-- The lines of the frame that have nothing to do with the tables. -/
def otherLines : List String :=
  frame.take 17 ++ linesBetween ++ frame.drop 28

/-- The lines are spelled by these lists of characters. -/
def SpelledBy (lists : List (List Char)) (lines : List String) : Prop :=
  lines = lists.map String.ofList

/-- One line more is spelled by one list more. -/
theorem spelledBy_cons {chars : List Char} {lines : List String} {lists : List (List Char)}
    (h : SpelledBy lists lines) : SpelledBy (chars :: lists) (String.ofList chars :: lines) :=
  congrArg (String.ofList chars :: ·) h

/-- No lines are spelled by no lists. -/
theorem spelledBy_nil : SpelledBy [] [] :=
  rfl

/-- What holds of the spellings holds of the lines. -/
theorem SpelledBy.forall_mem {P : List Char → Bool} {lines : List String} {lists : List (List Char)}
    (h : SpelledBy lists lines) (hall : lists.all P = true) :
    ∀ line ∈ lines, P line.toList = true := by
  rw [h, List.forall_mem_map]
  intro chars hchars
  rw [String.toList_ofList]
  exact List.all_eq_true.mp hall chars hchars

set_option maxRecDepth 2000 in
/-- The lines of the frame besides the tables declare none, as a look at each of them shows. -/
theorem otherLines_checked :
    ∀ line ∈ otherLines, isPlain line.toList = true := by
  apply SpelledBy.forall_mem
  case h =>
    repeat apply spelledBy_cons
    exact spelledBy_nil
  case hall => decide +kernel

/-! ### What comes of them -/

/-- In a closed text no line end counts. -/
theorem passes_of_isClosed {text : List Char} (h : isClosed text = true) : Passes '\n' text := by
  fun_induction isClosed text with
  | case1 => exact passes_nil
  | case2 c rest ih => exact (passes_saved c).append (ih h)
  | case3 c rest _ ih =>
    simp only [Bool.and_eq_true, bne_iff_ne, ne_eq] at h
    exact (passes_singleton h.1.1 h.1.2).append (ih h.2)

variable {values : List (String × String)}

/-- A line stays one line as long as no line end counts in what its placeholders are filled in with.
-/
theorem passes_render_of_isInline {slots : Nat} {source : List Char}
    (hvalues : ∀ name ∈ inlineSlots, Passes '\n' (filledIn values name).toList)
    (h : isInline slots source = true) :
    Passes '\n' ((parseTemplate source).flatMap (Segment.render values)) := by
  have hslots : ∀ name ∈ inlineSlots, isSlotName name.toList = true := by decide
  induction slots generalizing source with
  | zero =>
    rw [isInline, Bool.and_eq_true, beq_iff_eq] at h
    rw [flatMap_render_parse_of_none h.1]
    exact passes_of_isClosed h.2
  | succ slots ih =>
    rw [isInline] at h
    split at h
    next hcut =>
      rw [flatMap_render_parse_of_none hcut]
      exact passes_of_isClosed h
    next before after hcut =>
      split at h
      next name rest hname =>
        simp only [Bool.and_eq_true, List.contains_iff_mem] at h
        obtain ⟨⟨hbefore, hslot⟩, hrest⟩ := h
        have hvalid := hslots _ hslot
        have hvalue := render_slot values (String.ofList name)
        rw [String.toList_ofList] at hvalid hvalue
        rw [flatMap_render_parse_of_slot hcut hname hvalid, hvalue]
        exact ((passes_of_isClosed hbefore).append (hvalues _ hslot)).append (ih hrest)
      next => cases h

/-- What stands before the first pair of marks is copied. -/
theorem exists_render_of_cut {source before after : List Char}
    (h : cutAtMarks? source = some (before, after)) :
    ∃ rest, (parseTemplate source).flatMap (Segment.render values) = before ++ rest := by
  by_cases hslot : ∃ name rest, cutAtMarks? after = some (name, rest) ∧ isSlotName name = true
  · obtain ⟨name, rest, hname, hvalid⟩ := hslot
    rw [flatMap_render_parse_of_slot h hname hvalid, List.append_assoc]
    exact ⟨_, rfl⟩
  · rw [flatMap_render_parse_of_text h fun name rest hname =>
      Bool.eq_false_iff.mpr fun hvalid => hslot ⟨name, rest, hname, hvalid⟩]
    exact ⟨_, rfl⟩

/-- A line that has gone another way than a declaration is none, whatever it is filled in with. -/
theorem idle_render_of_isOther {source : List Char} (h : isOther source = true) :
    Idle ((parseTemplate source).flatMap (Segment.render values)) := by
  intro front hfront hdeclares
  have hother := List.all_eq_true.mp h front hfront
  cases hcut : cutAtMarks? source with
  | none =>
    rw [flatMap_render_parse_of_none hcut, ← List.isPrefixOf_iff_prefix] at hdeclares
    simp [hcut, hdeclares] at hother
  | some cut =>
    obtain ⟨before, after⟩ := cut
    obtain ⟨rest, hrender⟩ : ∃ rest,
        (parseTemplate source).flatMap (Segment.render values) = before ++ rest :=
      exists_render_of_cut hcut
    simp only [hcut, Bool.and_eq_true, Bool.not_eq_true', Bool.eq_false_iff] at hother
    rw [ne_eq, ne_eq, List.isPrefixOf_iff_prefix, List.isPrefixOf_iff_prefix] at hother
    have hsome : (unindent before).isEmpty = false := by
      cases hempty : unindent before with
      | nil => exact absurd (hempty ▸ List.nil_prefix) hother.2
      | cons => rfl
    have hblanks : unindent (before ++ rest) = unindent before ++ rest := by
      rw [unindent, List.dropWhile_append, ← unindent, hsome]
      rfl
    rw [hrender, hblanks] at hdeclares
    exact (List.prefix_or_prefix_of_prefix hdeclares (List.prefix_append _ rest)).elim hother.1
      hother.2

section script

variable (model : Model) (program : String) (tunables : Tunables)

/-- The values that are parts of lines end no line. -/
theorem passes_inlineSlots : ∀ name ∈ inlineSlots,
    Passes '\n' (filledIn (slotValues model program tunables) name).toList := by
  have hnumber : ∀ n : Nat, Passes '\n' (toString n).toList := fun n =>
    passes_of_isName (isName_toString n) (by decide)
  have hident : Passes '\n' (bashIdentifier program).toList :=
    passes_of_isName (isName_bashIdentifier program) (by decide)
  have hswitch : Passes '\n' (if tunables.fuzzyEnabled then "1" else "0").toList := by
    cases tunables.fuzzyEnabled <;> exact passes_of_plain (by decide) (by decide)
  unfold inlineSlots
  simp only [List.forall_mem_cons]
  exact ⟨hident, passes_word (by decide) (by decide) program, hswitch, hnumber _, hnumber _,
    hnumber _, hnumber _, hnumber _, List.forall_mem_nil _⟩

/-- Lines that have nothing to do with the tables declare nothing. -/
theorem declares_otherLines {lines : List String} (h : lines ⊆ otherLines) :
    Declares (lines.map (renderLine (slotValues model program tunables))) [] := by
  apply declares_idle
  · intro line hline
    obtain ⟨source, hsource, rfl⟩ := List.mem_map.mp hline
    have hplain := otherLines_checked source (h hsource)
    rw [isPlain, Bool.and_eq_true] at hplain
    rw [toList_renderLine]
    exact passes_render_of_isInline (passes_inlineSlots model program tunables) hplain.1
  · intro line hline
    obtain ⟨source, hsource, rfl⟩ := List.mem_map.mp hline
    have hplain := otherLines_checked source (h hsource)
    rw [isPlain, Bool.and_eq_true] at hplain
    rw [toList_renderLine]
    exact idle_render_of_isOther hplain.2

end script

end ShellCompletion.Script.Bash
