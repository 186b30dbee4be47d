import Mathlib.Data.List.Nodup
import ShellCompletion.Proofs.Command.Names
import ShellCompletion.Proofs.Command.Siblings
import ShellCompletion.Proofs.Model.FlagRecords
import ShellCompletion.Proofs.Script.Bash.Quoting
import ShellCompletion.Script.Bash.Render

/-!
# The keys of the Bash tables

A row of a table carries its key between brackets. If two rows of a table had the same key, the
second would take the place of the first when the script is read. The keys are made from places, and
from places and forms with a bar between them, so they may coincide for two reasons:

* **Characters that are lost** (`View.lost`): a NUL is not written, and a newline vanishes when Bash
  reads the key. What has neither is told apart (`View.look_escape_eq_iff`).
* **Bars** (`FlagParam.BarsCross`): a bar in a form and one in a place may be mistaken for the bar
  between them (`eq_or_mem_of_append_cons_eq`).

Main statement: `keys_apart`, for every tree. Both reasons occur in trees that pass the check:
`keys_coincide`.
-/

namespace ShellCompletion

/-- A bar in the place of one record meets a bar in the form of the other, so that either may be
taken for the bar between place and form. -/
def FlagParam.BarsCross (a b : FlagParam) : Prop :=
  '|' ∈ a.path.text.toList ∧ '|' ∈ b.form.toList ∨ '|' ∈ b.path.text.toList ∧ '|' ∈ a.form.toList

namespace Script.Bash

/-! ### Looking at a key -/

/-- How what is written is looked at. -/
inductive View where
  /-- As it stands in the script. -/
  | written
  /-- As Bash reads it. -/
  | read

namespace View

/-- The characters of which nothing is seen. -/
def lost : View → List Char
  | written => ['\x00']
  | read => ['\x00', '\n']

/-- What is seen of a text. -/
def kept (view : View) (text : String) : List Char :=
  text.toList.filter (· ∉ view.lost)

/-- What is seen of a key that is written as `chars`. -/
def look : View → List Char → List Char
  | written, chars => chars
  | read, chars => unescape ['\n'] chars

/-- The key of a row: what stands between its brackets. -/
def key? (view : View) (line : String) : Option (List Char) :=
  match line.toList.dropWhile (· = ' ') with
  | '[' :: rest => (cutAtBracket? rest).map fun cut => view.look cut.1
  | _ => none

/-- The key of a row is what is seen of the escaped text. -/
theorem key?_row (view : View) (key value : String) :
    view.key? (row key value) = some (view.look (escape key).toList) := by
  have hline : (row key value).toList.dropWhile (· = ' ') =
      '[' :: (key.toList.flatMap escapeChar ++ ']' :: '=' :: value.toList) := by
    simp [row, toList_escape, List.dropWhile]
  rw [key?, hline, toList_escape]
  simp only [cutAtBracket?_flatMap_escapeChar, Option.map_some]

/-- Two keys look the same exactly if the texts are the same without the characters that are
lost. -/
theorem look_escape_eq_iff (view : View) (a b : String) :
    view.look (escape a).toList = view.look (escape b).toList ↔ view.kept a = view.kept b := by
  rw [toList_escape, toList_escape]
  cases view with
  | written =>
    constructor
    · intro h
      -- a newline is written as well, so without joints all but the NULs can be read back
      have hmeant := congrArg (unescape []) h
      rwa [look, look, unescape_flatMap_escapeChar (List.nil_subset _),
        unescape_flatMap_escapeChar (List.nil_subset _)] at hmeant
    · intro h
      rw [look, look, ← flatMap_escapeChar_filter a.toList, ← flatMap_escapeChar_filter b.toList]
      exact congrArg (List.flatMap escapeChar) h
  | read =>
    have hjoints : ['\n'] ⊆ activeChars := by decide
    rw [look, look, unescape_flatMap_escapeChar hjoints, unescape_flatMap_escapeChar hjoints]
    rfl

end View

/-- Of a text that has none of the lost characters in it a key shows everything. -/
theorem View.kept_eq_toList {view : View} {text : String}
    (h : ∀ c ∈ text.toList, c ∉ view.lost) : view.kept text = text.toList :=
  List.filter_eq_self.mpr fun c hc => decide_eq_true (h c hc)

/-- Of the key of a flag, the place, the bar and the form are each kept for themselves. -/
theorem View.kept_flagKey (view : View) (param : FlagParam) :
    view.kept (flagKey param) = view.kept param.path.text ++ '|' :: view.kept param.form := by
  have hbar : '|' ∉ view.lost := by cases view <;> decide
  simp [View.kept, flagKey, hbar]

/-- Unless their bars cross, the keys of two records look the same only if the places and the forms
are the same without the characters that are lost. -/
theorem View.look_escape_flagKey_eq_iff (view : View) {a b : FlagParam} (h : ¬a.BarsCross b) :
    view.look (escape (flagKey a)).toList = view.look (escape (flagKey b)).toList ↔
      view.kept a.path.text = view.kept b.path.text ∧ view.kept a.form = view.kept b.form := by
  rw [view.look_escape_eq_iff, view.kept_flagKey, view.kept_flagKey]
  constructor
  · intro heq
    -- parted at different bars, the longer front and the longer back have one bar more
    rcases eq_or_mem_of_append_cons_eq heq with hsame | ⟨hpath, hform⟩ | ⟨hpath, hform⟩
    · exact hsame
    · exact absurd (.inl ⟨List.mem_of_mem_filter hpath, List.mem_of_mem_filter hform⟩) h
    · exact absurd (.inr ⟨List.mem_of_mem_filter hpath, List.mem_of_mem_filter hform⟩) h
  · rintro ⟨hpath, hform⟩
    rw [hpath, hform]

/-! ### The rows of the tables -/

/-- The keys of the rows of places, in order. -/
theorem View.map_key?_contextLines (view : View) (model : Model) :
    (contextLines model).map view.key? =
      model.allContexts.map fun entry => some (view.look (escape entry.1.text).toList) := by
  conv_rhs => rw [← List.zipIdx_map_fst 0 model.allContexts]
  simp only [contextLines, List.map_map, Function.comp_def, key?_row]

/-- The keys of the rows of flags, in order. -/
theorem View.map_key?_kindLines (view : View) (model : Model) :
    (kindLines model).map view.key? =
      model.flagParams.map fun param => some (view.look (escape (flagKey param)).toList) := by
  simp only [kindLines, List.map_map, Function.comp_def, key?_row]

/-- What holds of the entries of a list, each beside its image. -/
theorem pairwise_zip_map {α β : Type} {f : α → β} {R : α × β → α × β → Prop} {list : List α} :
    (list.zip (list.map f)).Pairwise R ↔ list.Pairwise fun x y => R (x, f x) (y, f y) := by
  rw [← List.map_prod_left_eq_zip, List.pairwise_map]

/-! ### Trees without the characters that are lost -/

section tree

variable {root : Command} {chars : List Char}

/-- The places of a tree are made of slashes and the characters in its names. -/
theorem not_mem_of_mem_allContexts (h : root.NamesLack chars) (hslash : '/' ∉ chars)
    {entry : ContextPath × List String} (hentry : entry ∈ root.model.allContexts) :
    ∀ c ∈ entry.1.text.toList, c ∉ chars := by
  obtain ⟨steps, node, hchain, hpath⟩ :=
    exists_options?_iff.mp ⟨entry.2, mem_allContexts_iff.mp hentry⟩
  rw [← hpath]
  exact fun c => h.not_mem_stepsPath hslash hchain

/-- So are the places of its records. -/
theorem not_mem_path_of_mem_flagParams (h : root.NamesLack chars) (hslash : '/' ∉ chars)
    {param : FlagParam} (hparam : param ∈ root.model.flagParams) :
    ∀ c ∈ param.path.text.toList, c ∉ chars := by
  obtain ⟨use, hpath, -, node, hchain, -⟩ := exists_isAt_of_mem_flagParams hparam
  rw [← hpath]
  exact fun c => h.not_mem_stepsPath hslash hchain

/-- The forms of the records are those of the flags in the tree. -/
theorem not_mem_form_of_mem_flagParams (h : root.FormsLack chars) {param : FlagParam}
    (hparam : param ∈ root.model.flagParams) : ∀ c ∈ param.form.toList, c ∉ chars := by
  obtain ⟨use, -, hform, node, hchain, hflag⟩ := exists_isAt_of_mem_flagParams hparam
  exact h node hchain.mem_descendants use.flag (List.mem_of_getElem? hflag) param.form
    (Flag.mem_typedForms.mpr hform)

/-- Bars do not cross in a tree if only names have bars in them, or only forms. -/
theorem not_barsCross (h : root.NamesLack ['|'] ∨ root.FormsLack ['|']) {a b : FlagParam}
    (ha : a ∈ root.model.flagParams) (hb : b ∈ root.model.flagParams) : ¬a.BarsCross b := by
  have hbar : '|' ∈ ['|'] := List.mem_singleton_self _
  rcases h with hnames | hforms
  · rintro (⟨hpath, -⟩ | ⟨hpath, -⟩)
    · exact not_mem_path_of_mem_flagParams hnames (by decide) ha _ hpath hbar
    · exact not_mem_path_of_mem_flagParams hnames (by decide) hb _ hpath hbar
  · rintro (⟨-, hform⟩ | ⟨-, hform⟩)
    · exact not_mem_form_of_mem_flagParams hforms hb _ hform hbar
    · exact not_mem_form_of_mem_flagParams hforms ha _ hform hbar

variable {view : View}

/-- The keys of the places are different if nothing of the names is lost. -/
theorem nodup_key?_contextLines (h : root.NamesLack view.lost) :
    ((contextLines root.model).map view.key?).Nodup := by
  have hslash : '/' ∉ view.lost := by cases view <;> decide
  rw [view.map_key?_contextLines, List.Nodup, List.pairwise_map]
  refine allContexts_increasing.imp_of_mem fun {a b} ha hb hlt hkey => ?_
  have hkept := (view.look_escape_eq_iff _ _).mp (Option.some.inj hkey)
  rw [View.kept_eq_toList (not_mem_of_mem_allContexts h hslash ha),
    View.kept_eq_toList (not_mem_of_mem_allContexts h hslash hb)] at hkept
  rw [String.toList_injective hkept] at hlt
  exact List.lt_irrefl _ hlt

/-- The keys of the records are different if nothing of the names and the forms is lost and no bars
cross. -/
theorem nodup_key?_kindLines (hnames : root.NamesLack view.lost)
    (hforms : root.FormsLack view.lost) (hbars : root.NamesLack ['|'] ∨ root.FormsLack ['|']) :
    ((kindLines root.model).map view.key?).Nodup := by
  have hslash : '/' ∉ view.lost := by cases view <;> decide
  rw [view.map_key?_kindLines, List.Nodup, List.pairwise_map]
  refine (List.pairwise_map.mp nodup_flagParams_key).imp_of_mem fun {a b} ha hb hne hkey => ?_
  obtain ⟨hpath, hform⟩ :=
    (view.look_escape_flagKey_eq_iff (not_barsCross hbars ha hb)).mp (Option.some.inj hkey)
  rw [View.kept_eq_toList (not_mem_path_of_mem_flagParams hnames hslash ha),
    View.kept_eq_toList (not_mem_path_of_mem_flagParams hnames hslash hb)] at hpath
  rw [View.kept_eq_toList (not_mem_form_of_mem_flagParams hforms ha),
    View.kept_eq_toList (not_mem_form_of_mem_flagParams hforms hb)] at hform
  have hplace : a.path = b.path := congrArg ContextPath.mk (String.toList_injective hpath)
  exact hne (Prod.ext hplace (String.toList_injective hform))

/-- Places that are the same without the characters that are lost have the same key. -/
theorem not_nodup_key?_contextLines {steps steps' : List (Nat × String)} {node node' : Command}
    (hchain : AliasChain root steps node) (hchain' : AliasChain root steps' node')
    (hne : stepsPath steps ≠ stepsPath steps')
    (hkept : view.kept (stepsPath steps).text = view.kept (stepsPath steps').text) :
    ¬((contextLines root.model).map view.key?).Nodup := by
  intro hnodup
  rw [view.map_key?_contextLines] at hnodup
  obtain ⟨options, hentry⟩ := exists_options?_iff.mpr ⟨steps, node, hchain, rfl⟩
  obtain ⟨options', hentry'⟩ := exists_options?_iff.mpr ⟨steps', node', hchain', rfl⟩
  rw [← mem_allContexts_iff] at hentry hentry'
  have hlook := (view.look_escape_eq_iff _ _).mpr hkept
  have heq := List.inj_on_of_nodup_map hnodup hentry hentry' (congrArg some hlook)
  exact hne (congrArg Prod.fst heq)

/-- Records that are the same with a bar between the place and the form have the same key. -/
theorem not_nodup_key?_kindLines {path path' : ContextPath} {form form' : String}
    {use use' : FlagUse} (huse : use.IsAt root path form) (huse' : use'.IsAt root path' form')
    (hne : (path, form) ≠ (path', form'))
    (hglued : path.text ++ "|" ++ form = path'.text ++ "|" ++ form') :
    ¬((kindLines root.model).map view.key?).Nodup := by
  intro hnodup
  rw [view.map_key?_kindLines] at hnodup
  obtain ⟨param, hparam, hkey⟩ := exists_mem_flagParams_of_isAt huse
  obtain ⟨param', hparam', hkey'⟩ := exists_mem_flagParams_of_isAt huse'
  obtain ⟨rfl, rfl⟩ := Prod.mk.inj hkey
  obtain ⟨rfl, rfl⟩ := Prod.mk.inj hkey'
  have hlook := congrArg (fun text => view.look (escape text).toList) hglued
  have heq := List.inj_on_of_nodup_map hnodup hparam hparam' (congrArg some hlook)
  exact hne (congrArg FlagParam.key heq)

end tree

/-- **The keys of the Bash tables are apart**, whether as they are written or as Bash reads them.
For every tree: the keys of two places are the same exactly if the places are the same without the
characters that are lost; so they all differ if no name has such a character. The same goes for the
keys of two records with their places and forms, unless their bars cross; so they all differ if
neither names nor forms have a lost character and not both have bars. -/
theorem keys_apart (root : Command) (view : View) :
    (root.model.allContexts.zip ((contextLines root.model).map view.key?)).Pairwise (fun a b =>
      a.2 = b.2 ↔ view.kept a.1.1.text = view.kept b.1.1.text) ∧
    (root.NamesLack view.lost → ((contextLines root.model).map view.key?).Nodup) ∧
    (root.model.flagParams.zip ((kindLines root.model).map view.key?)).Pairwise (fun a b =>
      ¬a.1.BarsCross b.1 → (a.2 = b.2 ↔
        view.kept a.1.path.text = view.kept b.1.path.text ∧
          view.kept a.1.form = view.kept b.1.form)) ∧
    (root.NamesLack view.lost → root.FormsLack view.lost →
      root.NamesLack ['|'] ∨ root.FormsLack ['|'] →
        ((kindLines root.model).map view.key?).Nodup) := by
  refine ⟨?_, nodup_key?_contextLines, ?_, nodup_key?_kindLines⟩
  · rw [view.map_key?_contextLines, pairwise_zip_map]
    refine List.pairwise_of_forall fun a b => ?_
    rw [Option.some_inj, view.look_escape_eq_iff]
  · rw [view.map_key?_kindLines, pairwise_zip_map]
    refine List.pairwise_of_forall fun a b hbars => ?_
    rw [Option.some_inj, view.look_escape_flagKey_eq_iff hbars]

/-- Brackets and backslashes do no harm, nor do bars in names alone. -/
theorem keys_apart_in_spite_of_brackets :
    let sub : Command := { name := "a]", short := some "a\\", flags := [.switch none (some "[b]")] }
    let root : Command :=
      { name := "p", subcommands := [sub, { name := "a|]" }], flags := [.switch none (some "b\\")] }
    root.check = .ok () ∧ ((contextLines root.model).map View.read.key?).Nodup ∧
      ((kindLines root.model).map View.read.key?).Nodup := by
  intro sub root
  obtain ⟨-, hplaces, -, hrecords⟩ := keys_apart root .read
  exact ⟨by decide, hplaces (by decide), hrecords (by decide) (by decide) (.inr (by decide))⟩

/-- Keys coincide in trees that pass the check: two names that differ in a NUL have the same key,
two that differ in a newline have the same key for Bash, and a bar in a name may be mistaken for the
one between a place and a form. -/
theorem keys_coincide :
    let nul : Command := { name := "p", subcommands := [{ name := "ab" }, { name := "a\x00b" }] }
    let newline : Command := { name := "p", subcommands := [{ name := "ab" }, { name := "a\nb" }] }
    let sub : Command := { name := "|--a", flags := [.switch none (some "b")] }
    let bar : Command :=
      { name := "p", subcommands := [sub], flags := [.switch none (some "a/|--b")] }
    (nul.check = .ok () ∧ ¬((contextLines nul.model).map View.written.key?).Nodup) ∧
      (newline.check = .ok () ∧ ¬((contextLines newline.model).map View.read.key?).Nodup) ∧
      (bar.check = .ok () ∧ ¬((kindLines bar.model).map View.written.key?).Nodup) := by
  intro nul newline sub bar
  have hchild : ∀ (root child : Command) (i : Nat), root.subcommands[i]? = some child →
      child.name ≠ "" → AliasChain root [(i, child.name)] child :=
    fun _ _ _ hi hne => .step .root hi ⟨hne, .inl rfl⟩
  refine ⟨⟨by decide, ?_⟩, ⟨by decide, ?_⟩, by decide, ?_⟩
  · have hplain := hchild nul _ 0 rfl (by decide)
    have hnul := hchild nul _ 1 rfl (by decide)
    exact not_nodup_key?_contextLines hplain hnul (by decide) (by decide)
  · have hplain := hchild newline _ 0 rfl (by decide)
    have hnewline := hchild newline _ 1 rfl (by decide)
    exact not_nodup_key?_contextLines hplain hnewline (by decide) (by decide)
  · have hroot : FlagUse.IsAt bar .root "--a/|--b" ⟨[], 0, .switch none (some "a/|--b")⟩ :=
      ⟨rfl, ⟨"a/|--b", by decide, .inl ⟨rfl, by decide⟩⟩, bar, .root, rfl⟩
    have hsub : AliasChain bar [(0, sub.name)] sub := hchild bar sub 0 rfl (by decide)
    have hbelow : FlagUse.IsAt bar ⟨"/|--a/"⟩ "--b" ⟨[(0, "|--a")], 0, .switch none (some "b")⟩ :=
      ⟨by decide, ⟨"b", by decide, .inl ⟨rfl, by decide⟩⟩, sub, hsub, rfl⟩
    exact not_nodup_key?_kindLines hroot hbelow (by decide) (by decide)

end Script.Bash

end ShellCompletion
