import Mathlib.Data.List.Basic
import ShellCompletion.Proofs.Script.Template

/-!
# What a template becomes

Filling in a template is one pass of substitution: nothing of the source is lost, whatever runs of
`@` it has, and no value is looked at again.

* **The value that counts** (`StandsFor`): the first one listed for a name, or nothing. It is what
  `filledIn` looks up (`standsFor_iff`).
* **A plain source** (`Layout`): texts without `@` around placeholders. Taking it apart gives these
  texts and placeholders back (`parseTemplate_filledWith_marked`). The shape rules out the odd runs:
  where a text may end in `@`, the first pair of marks need not be the one of the placeholder.

Main statement: `renderTemplate_substitutes`.
-/

namespace ShellCompletion.Script

/-! ### The value that counts -/

/-- The text that stands for a name in a list of values. -/
inductive StandsFor (values : List (String × String)) (name : String) : String → Prop
  /-- The value is listed for the name, and none before it is. -/
  | listed {before after : List (String × String)} {value : String}
      (hvalues : values = before ++ (name, value) :: after)
      (hbefore : ∀ pair ∈ before, pair.1 ≠ name) : StandsFor values name value
  /-- No value is listed for the name. -/
  | missing (hvalues : ∀ pair ∈ values, pair.1 ≠ name) : StandsFor values name ""

/-- What stands for a name is what is filled in for it. -/
theorem standsFor_iff {values : List (String × String)} {name text : String} :
    StandsFor values name text ↔ filledIn values name = text := by
  unfold filledIn
  constructor
  · intro h
    cases h with
    | @listed before after value hvalues hbefore =>
      have hnone : before.find? (fun pair => pair.1 = name) = none := by simpa using hbefore
      simp [hvalues, List.find?_append, hnone]
    | missing hvalues =>
      have hnone : values.find? (fun pair => pair.1 = name) = none := by simpa using hvalues
      rw [hnone]
  · rintro rfl
    cases hfind : values.find? fun pair => pair.1 = name with
    | none => exact .missing (by simpa using hfind)
    | some pair =>
      obtain ⟨hname, before, after, hvalues, hbefore⟩ := List.find?_eq_some_iff_append.mp hfind
      obtain rfl : pair.1 = name := by simpa using hname
      exact .listed hvalues (by simpa using hbefore)

/-! ### Sources of any kind -/

/-- A name as a placeholder has it in a source. -/
def marked (name : String) : String :=
  "@@" ++ name ++ "@@"

/-- The names of a template's placeholders, in order and with repeats. -/
def slotNames (template : List Segment) : List String :=
  template.filterMap fun
    | .text _ => none
    | .slot name => some (String.ofList name)

/-- The names of the slots are those in the segments. -/
theorem mem_slotNames {template : List Segment} {name : List Char}
    (h : .slot name ∈ template) : String.ofList name ∈ slotNames template :=
  List.mem_filterMap.mpr ⟨_, h, rfl⟩

/-- A placeholder that is filled in with itself stands in the text as it stands in a source. -/
theorem render_eq_source {values : List (String × String)} {template : List Segment}
    (h : ∀ name ∈ slotNames template, StandsFor values name (marked name))
    {segment : Segment} (hmem : segment ∈ template) : segment.render values = segment.source := by
  cases segment with
  | text content => rfl
  | slot name =>
    have hname := standsFor_iff.mp (h _ (mem_slotNames hmem))
    rw [← String.toList_ofList (l := name), render_slot, hname]
    simp [marked, Segment.source]

/-! ### Plain sources -/

/-- A placeholder and the text between it and the next one. -/
structure Hole where
  /-- The name of the placeholder. -/
  name : String
  /-- The text behind the placeholder. -/
  text : String
  name_ne_empty : name ≠ ""
  /-- The name has only capitals, digits and underscores in it. -/
  name_chars : ∀ c ∈ name.toList, c.isUpper = true ∨ c.isDigit = true ∨ c = '_'
  mark_not_mem_text : '@' ∉ text.toList

/-- The name of a hole is the name of a slot. -/
theorem Hole.isSlotName_name (hole : Hole) : isSlotName hole.name.toList = true := by
  rw [isSlotName, Bool.and_eq_true, List.all_eq_true]
  constructor
  · simpa using hole.name_ne_empty
  · intro c hc
    simpa [isSlotChar, or_assoc] using hole.name_chars c hc

/-- A source that is made of texts without marks and of placeholders. -/
structure Layout where
  /-- The text before the first placeholder. -/
  front : String
  /-- The placeholders, each with the text behind it. -/
  holes : List Hole
  mark_not_mem_front : '@' ∉ front.toList

/-- What stands at a hole and behind it, with a text for each name. -/
def Hole.filledWith (hole : Hole) (value : String → String) : String :=
  value hole.name ++ hole.text

/-- The texts of a layout with something at each placeholder. -/
def Layout.filledWith (layout : Layout) (value : String → String) : String :=
  layout.front ++ String.join (layout.holes.map (Hole.filledWith · value))

/-- The pieces of a layout. -/
def Layout.segments (layout : Layout) : List Segment :=
  textSegment layout.front.toList ++
    layout.holes.flatMap fun hole => .slot hole.name.toList :: textSegment hole.text.toList

/-- The characters of a layout are its front and then, hole by hole, what is put there and what
follows. -/
theorem Layout.toList_filledWith (layout : Layout) (value : String → String) :
    (layout.filledWith value).toList = layout.front.toList ++
      layout.holes.flatMap fun hole => (value hole.name).toList ++ hole.text.toList := by
  simp [Layout.filledWith, Hole.filledWith, List.flatMap_map]

/-- A text without marks has no marked name in it. -/
theorem cutAtMarks?_eq_none {cs : List Char} (h : '@' ∉ cs) : cutAtMarks? cs = none := by
  rw [Option.eq_none_iff_forall_ne_some]
  intro cut hcut
  rw [eq_append_of_cutAtMarks? hcut] at h
  simp at h

/-- **Taking a plain source apart** gives its texts and placeholders back. -/
theorem Layout.parseTemplate_filledWith_marked (layout : Layout) :
    parseTemplate (layout.filledWith marked).toList = layout.segments := by
  obtain ⟨front, holes, hfront⟩ := layout
  rw [toList_filledWith, segments]
  dsimp only
  -- behind a placeholder, the text up to the next one is the front of what is left
  induction holes generalizing front with
  | nil => simpa using parseTemplate_of_none (cutAtMarks?_eq_none hfront)
  | cons hole holes ih =>
    have hname := mark_not_mem_of_isSlotName hole.isSlotName_name
    have hsource : ∀ others : List Char,
        front.toList ++ ((marked hole.name).toList ++ hole.text.toList ++ others) =
          front.toList ++
            '@' :: '@' :: (hole.name.toList ++ '@' :: '@' :: (hole.text.toList ++ others)) := by
      intro others
      simp [marked]
    rw [List.flatMap_cons, hsource, parseTemplate_of_slot (cutAtMarks?_append_marks hfront _)
      (cutAtMarks?_append_marks hname _) hole.isSlotName_name, ih _ hole.mark_not_mem_text]
    rfl

/-- The pieces of a layout, filled in. -/
theorem Layout.flatMap_render_segments (layout : Layout) (values : List (String × String)) :
    layout.segments.flatMap (Segment.render values) =
      (layout.filledWith (filledIn values)).toList := by
  have hhole : ∀ hole : Hole,
      (Segment.slot hole.name.toList :: textSegment hole.text.toList).flatMap
          (Segment.render values) =
        (filledIn values hole.name).toList ++ hole.text.toList := by
    intro hole
    rw [List.flatMap_cons, render_slot, flatMap_render_textSegment]
  rw [toList_filledWith, segments, List.flatMap_append, flatMap_render_textSegment,
    List.flatMap_assoc]
  simp only [hhole]

/-! ### One pass -/

/-- **Filling in is one pass of substitution.** A source comes back as it was, whatever runs of `@`
it has, if the value of each of its placeholders is the placeholder itself. And for every list of
values there is one text for each name, the value that counts, such that a source of texts without
`@` and of placeholders becomes these texts with that text at each placeholder. The values may hold
anything: they are copied, and what looks like a placeholder in them stays as it is. -/
theorem renderTemplate_substitutes (values : List (String × String)) :
    (∀ source : String,
      (∀ name ∈ slotNames (parseTemplate source.toList), StandsFor values name (marked name)) →
        renderTemplate (parseTemplate source.toList) values = source) ∧
    ∃ value : String → String, (∀ name, StandsFor values name (value name)) ∧
      ∀ layout : Layout,
        renderTemplate (parseTemplate (layout.filledWith marked).toList) values =
          layout.filledWith value := by
  refine ⟨?_, filledIn values, fun name => standsFor_iff.mpr rfl, ?_⟩
  · intro source h
    have hsource : (parseTemplate source.toList).flatMap (Segment.render values) =
        source.toList := by
      rw [List.flatMap_congr fun segment hmem => render_eq_source h hmem, source_parse]
    rw [renderTemplate, hsource, String.ofList_toList]
  · intro layout
    rw [renderTemplate, layout.parseTemplate_filledWith_marked, layout.flatMap_render_segments,
      String.ofList_toList]

/-- Three marks open no placeholder, and neither does a pair before a small letter. -/
theorem renderTemplate_substitutes_odd_marks :
    let source := "@@@A@@@@B@@@ @@c@@"
    let values := [("B", "@@B@@"), ("A", "x"), ("B", "y")]
    slotNames (parseTemplate source.toList) = ["B"] ∧ StandsFor values "B" (marked "B") ∧
      renderTemplate (parseTemplate source.toList) values = source := by
  intro source values
  have hnames : slotNames (parseTemplate source.toList) = ["B"] := by
    unfold source
    decide +kernel
  have hvalues : values = [] ++ ("B", marked "B") :: [("A", "x"), ("B", "y")] := rfl
  have hvalue : StandsFor values "B" (marked "B") := .listed hvalues (by simp)
  refine ⟨hnames, hvalue, ?_⟩
  apply (renderTemplate_substitutes values).1
  rw [hnames]
  simpa using hvalue

/-- The value of `A` looks like a placeholder and stays as it is. -/
example : renderTemplate (parseTemplate "1@@A@@@@B@@2@@C@@".toList)
    [("A", "@@B@@"), ("B", "x"), ("A", "y")] = "1@@B@@x2" := by
  decide +kernel

end ShellCompletion.Script
