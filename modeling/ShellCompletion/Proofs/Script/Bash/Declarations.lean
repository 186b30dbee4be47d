import ShellCompletion.Proofs.Script.Bash.Keys
import ShellCompletion.Proofs.Script.Bash.Splitting
import ShellCompletion.Proofs.Script.Template
import ShellCompletion.Text.Search

/-!
# What a Bash script declares

A script is read line by line. A line may open a table, whose rows are then on the lines up to a
closing bracket, or declare an array or an empty table. All other lines declare nothing, and they
may not stand inside a table. A script is not read if a line begins as a declaration and does not go
on as one.

* **Reading** (`Reading.step`, `declarations?`).
* **Blocks of lines** (`Declares`): what they declare does not depend on what stands around them, so
  that blocks can be put together (`Declares.append`). There is one lemma for each kind of block:
  `declares_table`, `declares_arrays` and `declares_idle`.

Main statement: `declarations?_ofLines`.
-/

namespace ShellCompletion.Script.Bash

/-! ### Reading -/

/-- A row of a table: its key as Bash reads it, and its value. -/
abbrev Row := List Char × String

/-- What a script declares under a name. -/
inductive Declaration where
  /-- A table with its rows. -/
  | table (name : String) (rows : List Row)
  /-- An array with its words, as they are written. -/
  | array (name : String) (words : List String)

/-- The name that is declared. -/
def Declaration.name : Declaration → String
  | table name _ => name
  | array name _ => name

/-- A line without the blanks before it. -/
def unindent (line : List Char) : List Char :=
  line.dropWhile (· = ' ')

/-- The key and the value of a row. -/
def row? (line : List Char) : Option Row :=
  match unindent line with
  | '[' :: rest =>
    match cutAtBracket? rest with
    | some (key, '=' :: value) => some (View.read.look key, String.ofList value)
    | _ => none
  | _ => none

/-- The words of an array, up to the bracket that ends both the array and the line. -/
def words? : List Char → Option (List String)
  | '(' :: rest =>
    match splitActive ')' rest with
    | [[], []] => some []
    | [content, []] => some ((splitActive ' ' content).map String.ofList)
    | _ => none
  | _ => none

/-- What has been read of a script. -/
structure Reading where
  /-- The table that is open, with its name and the rows so far. -/
  openTable : Option (String × List Row) := none
  /-- The declarations that are complete. -/
  complete : List Declaration := []

namespace Reading

/-- Reads the name of a table, and whether its rows follow. -/
def takeTable (reading : Reading) (text : List Char) : Option Reading :=
  match Text.cutAtFirst? '=' text with
  | some (name, ['(']) => some { reading with openTable := some (String.ofList name, []) }
  | some (name, ['(', ')']) =>
    some { reading with complete := reading.complete ++ [.table (String.ofList name) []] }
  | _ => none

/-- Reads the name of an array and its words. -/
def takeArray (reading : Reading) (text : List Char) : Option Reading :=
  match Text.cutAtFirst? '=' text with
  | some (name, value) =>
    (words? value).map fun words =>
      { reading with complete := reading.complete ++ [.array (String.ofList name) words] }
  | none => none

/-- Reads one line. -/
def step (reading : Reading) (line : List Char) : Option Reading :=
  match reading.openTable with
  | some (name, rows) =>
    if unindent line = [')'] then
      some { openTable := none, complete := reading.complete ++ [.table name rows] }
    else (row? line).map fun row => { reading with openTable := some (name, rows ++ [row]) }
  | none =>
    match (unindent line).dropPrefix? "declare -gA ".toList with
    | some text => reading.takeTable text
    | none =>
      match (unindent line).dropPrefix? "declare -ga ".toList with
      | some text => reading.takeArray text
      | none => some reading

end Reading

/-- All that a script declares, in order. -/
def declarations? (script : String) : Option (List Declaration) :=
  match (splitActive '\n' script.toList).foldlM Reading.step {} with
  | some ⟨none, complete⟩ => some complete
  | _ => none

/-! ### Blocks of lines -/

/-- The lines declare this and nothing else, whatever has been declared before. -/
structure Declares (lines : List String) (declared : List Declaration) : Prop where
  /-- None of the lines goes on behind its end. -/
  passes : ∀ line ∈ lines, Passes '\n' line.toList
  /-- What comes of reading them. -/
  read : ∀ complete, (lines.map String.toList).foldlM Reading.step ⟨none, complete⟩ =
    some ⟨none, complete ++ declared⟩

/-- Blocks of lines declare one after the other what each of them does. -/
theorem Declares.append {lines others : List String} {declared further : List Declaration}
    (h : Declares lines declared) (h' : Declares others further) :
    Declares (lines ++ others) (declared ++ further) where
  passes := List.forall_mem_append.mpr ⟨h.passes, h'.passes⟩
  read complete := by
    rw [List.map_append, List.foldlM_append, h.read, Option.bind_eq_bind, Option.bind_some, h'.read,
      List.append_assoc]

/-- What stands before the name that is declared. -/
def fronts : List String :=
  ["declare -gA ", "declare -ga "]

/-- A line that is none of a declaration. -/
def Idle (line : List Char) : Prop :=
  ∀ front ∈ fronts, ¬front.toList <+: unindent line

/-- A line that is none of a declaration declares nothing. -/
theorem Idle.step {line : List Char} (h : Idle line) (complete : List Declaration) :
    Reading.step ⟨none, complete⟩ line = some ⟨none, complete⟩ := by
  have hnone : ∀ front ∈ fronts, (unindent line).dropPrefix? front.toList = none := by
    intro front hfront
    apply Option.eq_none_iff_forall_ne_some.mpr
    intro rest hrest
    obtain ⟨start, hline, hstart⟩ := List.dropPrefix?_eq_some_iff.mp hrest
    rw [eq_of_beq hstart] at hline
    exact h front hfront ⟨rest, hline.symm⟩
  have htable := hnone "declare -gA " List.mem_cons_self
  have harray := hnone "declare -ga " (List.mem_cons_of_mem _ List.mem_cons_self)
  simp only [Reading.step, htable, harray]

/-- Lines that are none of a declaration declare nothing. -/
theorem declares_idle {lines : List String} (h : ∀ line ∈ lines, Passes '\n' line.toList)
    (hidle : ∀ line ∈ lines, Idle line.toList) : Declares lines [] where
  passes := h
  read complete := by
    rw [List.append_nil]
    induction lines with
    | nil => rfl
    | cons line lines ih =>
      rw [List.map_cons, List.foldlM_cons, (hidle line List.mem_cons_self).step]
      exact ih (fun other hother => h other (List.mem_cons_of_mem line hother))
        fun other hother => hidle other (List.mem_cons_of_mem line hother)

/-! ### Arrays -/

/-- The name of a variable in the script of a program. -/
def variableName (program family : String) : String :=
  "_" ++ bashIdentifier program ++ "_" ++ family

/-- The name of a variable is a name for Bash, whatever the program is called. -/
theorem isName_variableName (program : String) {family : String} (h : isName family = true) :
    isName (variableName program family) = true :=
  isName_append (isName_append (isName_append rfl (isName_bashIdentifier program)) rfl) h

/-- A line that declares a name goes on behind its end only if the value does. -/
theorem passes_declaration {front name : String} {value : List Char} (hfront : front ∈ fronts)
    (hname : isName name = true) (hvalue : Passes '\n' value) :
    Passes '\n' (front.toList ++ (name.toList ++ value)) := by
  have hplain : ∀ front ∈ fronts, '\n' ∉ front.toList ∧ '\\' ∉ front.toList := by decide
  obtain ⟨hline, hslash⟩ := hplain front hfront
  exact (passes_of_plain hline hslash).append
    ((passes_of_isName hname (by decide)).append hvalue)

/-- A line with the front of a table is taken for one. -/
theorem step_table (name : String) (value : List Char) (complete : List Declaration) :
    Reading.step ⟨none, complete⟩ ("declare -gA ".toList ++ (name.toList ++ '=' :: value)) =
      Reading.takeTable ⟨none, complete⟩ (name.toList ++ '=' :: value) := by
  have hdrop : (unindent ("declare -gA ".toList ++ (name.toList ++ '=' :: value))).dropPrefix?
      "declare -gA ".toList = some (name.toList ++ '=' :: value) :=
    List.dropPrefix?_append_of_beq _ (beq_self_eq_true _)
  simp only [Reading.step, hdrop]

/-- A line with the front of an array declares the array with its words. -/
theorem step_array {name : String} (h : isName name = true) (value : List Char)
    (complete : List Declaration) :
    Reading.step ⟨none, complete⟩ ("declare -ga ".toList ++ (name.toList ++ '=' :: value)) =
      (words? value).map fun words => ⟨none, complete ++ [.array name words]⟩ := by
  have htable : (unindent ("declare -ga ".toList ++ (name.toList ++ '=' :: value))).dropPrefix?
      "declare -gA ".toList = none := rfl
  have hdrop : (unindent ("declare -ga ".toList ++ (name.toList ++ '=' :: value))).dropPrefix?
      "declare -ga ".toList = some (name.toList ++ '=' :: value) :=
    List.dropPrefix?_append_of_beq _ (beq_self_eq_true _)
  have hequals := not_mem_of_isName h (by decide : isIdentifierChar '=' = false)
  simp only [Reading.step, htable, hdrop, Reading.takeArray, Text.cutAtFirst?_append hequals,
    String.ofList_toList]

/-- No text is written as an empty word. -/
theorem toList_word_ne_nil (text : String) : (word text).toList ≠ [] := by
  unfold word
  split
  · decide
  next hne => exact fun hnil => hne (String.toList_inj.mp hnil)

/-- The words of an array are found again. -/
theorem words?_words (texts : List String) :
    words? ('(' :: ((words texts).toList ++ [')'])) = some (texts.map word) := by
  have hbracket : Passes ')' (words texts).toList :=
    passes_words (by decide) (by decide) (by decide) texts
  have hsplit : splitActive ')' ((words texts).toList ++ [')']) = [(words texts).toList, []] :=
    splitActive_append_cons hbracket (by decide) []
  rw [words?, hsplit]
  cases texts with
  | nil => rfl
  | cons text texts =>
    have hwords : ((text :: texts).map fun text => (word text).toList) ≠ [] :=
      List.cons_ne_nil _ _
    have hpass : ∀ written ∈ (text :: texts).map fun text => (word text).toList,
        Passes ' ' written := by
      intro written hwritten
      obtain ⟨other, -, rfl⟩ := List.mem_map.mp hwritten
      exact passes_word (by decide) (by decide) other
    have hblanks := splitActive_intercalate (by decide) hpass hwords
    have hcontent : (words (text :: texts)).toList =
        [' '].intercalate ((text :: texts).map fun text => (word text).toList) := by
      rw [words, String.toList_intercalate, List.map_map]
      rfl
    -- no text is written as an empty word, so something stands between the brackets
    have hne : (words (text :: texts)).toList ≠ [] := by
      intro hnil
      rw [← hcontent, hnil] at hblanks
      exact toList_word_ne_nil text (List.cons.inj hblanks).1.symm
    split
    next heq => exact absurd (List.cons.inj heq).1 hne
    next heq =>
      obtain ⟨rfl, -⟩ := List.cons.inj heq
      rw [hcontent, hblanks, List.map_map]
      simp
    next h => exact absurd rfl (h _)

/-- The characters of the line that declares an array. -/
theorem toList_arrayLine (program family : String) (number : Nat) (texts : List String) :
    (arrayLine (bashIdentifier program) family number texts).toList =
      "declare -ga ".toList ++
        ((variableName program (family ++ "_" ++ toString number)).toList ++
          '=' :: '(' :: ((words texts).toList ++ [')'])) := by
  have hfront : "declare -ga _" = "declare -ga " ++ "_" := by decide
  have hopen : "=(".toList = ['=', '('] := by decide
  have hclose : ")".toList = [')'] := by decide
  unfold arrayLine variableName
  simp only [String.toList_append, List.append_assoc, hfront, hopen, hclose, List.cons_append,
    List.nil_append]

/-- Arrays of one family, each with a number of its own. -/
theorem declares_arrays {α : Type} {family : String} (program : String) (h : isName family = true)
    (number : α → Nat) (texts : α → List String) (list : List α) :
    Declares (list.map fun x => arrayLine (bashIdentifier program) family (number x) (texts x))
      (list.map fun x =>
        .array (variableName program (family ++ "_" ++ toString (number x)))
          ((texts x).map word)) := by
  have hname : ∀ number : Nat,
      isName (variableName program (family ++ "_" ++ toString number)) = true := fun number =>
    isName_variableName program (isName_append (isName_append h rfl) (isName_toString number))
  constructor
  · intro line hline
    obtain ⟨x, -, rfl⟩ := List.mem_map.mp hline
    have hwords : Passes '\n' (words (texts x)).toList :=
      passes_words (by decide) (by decide) (by decide) (texts x)
    have hopen : Passes '\n' ['=', '('] := passes_of_plain (by decide) (by decide)
    have hclose : Passes '\n' [')'] := passes_of_plain (by decide) (by decide)
    exact toList_arrayLine program family (number x) (texts x) ▸
      passes_declaration (by decide) (hname (number x)) (hopen.append (hwords.append hclose))
  · intro complete
    induction list generalizing complete with
    | nil => exact congrArg (fun all => some (Reading.mk none all)) (List.append_nil complete).symm
    | cons x list ih =>
      rw [List.map_cons, List.map_cons, List.foldlM_cons, toList_arrayLine, step_array (hname _),
        words?_words]
      exact (ih _).trans (by rw [List.append_assoc]; rfl)

/-! ### Tables -/

/-- The lines of a table. -/
def tableLines (program family : String) (rows : List String) : List String :=
  ("declare -gA " ++ variableName program family ++ "=(") :: (rows ++ [")"])

/-- A row begins with a bracket behind its indentation. -/
theorem unindent_row (key value : String) :
    unindent (row key value).toList =
      '[' :: (key.toList.flatMap escapeChar ++ ']' :: '=' :: value.toList) := by
  simp [unindent, row, toList_escape, List.dropWhile]

/-- A row is read as the key without what is lost, and the value. -/
theorem row?_row (key value : String) :
    row? (row key value).toList = some (View.read.kept key, value) := by
  have hkey : View.read.look (key.toList.flatMap escapeChar) = View.read.kept key :=
    unescape_flatMap_escapeChar (by decide) key.toList
  unfold row?
  simp only [unindent_row, cutAtBracket?_flatMap_escapeChar, hkey, String.ofList_toList]

/-- A row stays on its line, whatever its key is. -/
theorem passes_row (key : String) {value : String} (h : isName value = true) :
    Passes '\n' (row key value).toList := by
  have hfront : Passes '\n' "    [".toList := passes_of_plain (by decide) (by decide)
  have hmiddle : Passes '\n' "]=".toList := passes_of_plain (by decide) (by decide)
  unfold row
  simp only [String.toList_append]
  exact ((hfront.append (passes_escape (by decide) key)).append hmiddle).append
    (passes_of_isName h (by decide))

/-- A row is added to the table that is open. -/
theorem step_row (name : String) (before : List Row) (complete : List Declaration)
    (key value : String) :
    Reading.step ⟨some (name, before), complete⟩ (row key value).toList =
      some ⟨some (name, before ++ [(View.read.kept key, value)]), complete⟩ := by
  have hopen : unindent (row key value).toList ≠ [')'] := by
    rw [unindent_row]
    exact fun heq => absurd (List.cons.inj heq).1 (by decide)
  unfold Reading.step
  simp only [if_neg hopen, row?_row, Option.map_some]

/-- Rows are added to the table that is open. -/
theorem foldlM_step_rows {α : Type} (name : String) (key value : α → String) (list : List α)
    (before : List Row) (complete : List Declaration) :
    ((list.map fun x => row (key x) (value x)).map String.toList).foldlM Reading.step
        ⟨some (name, before), complete⟩ =
      some ⟨some (name, before ++ list.map fun x => (View.read.kept (key x), value x)),
        complete⟩ := by
  induction list generalizing before with
  | nil => simp
  | cons x list ih =>
    rw [List.map_cons, List.map_cons, List.foldlM_cons, step_row]
    exact (ih _).trans (by rw [List.append_assoc]; rfl)

/-- A table with its rows. -/
theorem declares_table {α : Type} {family : String} (program : String) (h : isName family = true)
    (key : α → String) {value : α → String} (hvalue : ∀ x, isName (value x) = true)
    (list : List α) :
    Declares (tableLines program family (list.map fun x => row (key x) (value x)))
      [.table (variableName program family)
        (list.map fun x => (View.read.kept (key x), value x))] := by
  have hname := isName_variableName program h
  have hopening : ("declare -gA " ++ variableName program family ++ "=(").toList =
      "declare -gA ".toList ++ ((variableName program family).toList ++ ['=', '(']) := by
    have hopen : "=(".toList = ['=', '('] := by decide
    simp only [String.toList_append, List.append_assoc, hopen]
  constructor
  · intro line hline
    rcases List.mem_cons.mp hline with rfl | hline
    · have hopen : Passes '\n' ['=', '('] := passes_of_plain (by decide) (by decide)
      exact hopening ▸ passes_declaration (by decide) hname hopen
    · rcases List.mem_append.mp hline with hrow | hclose
      · obtain ⟨x, -, rfl⟩ := List.mem_map.mp hrow
        exact passes_row (key x) (hvalue x)
      · rw [List.mem_singleton.mp hclose]
        exact passes_of_plain (by decide) (by decide)
  · intro complete
    -- the opening line takes the name, and each row is put to it until the bracket closes
    have hequals := not_mem_of_isName hname (by decide : isIdentifierChar '=' = false)
    have hopen : Reading.step ⟨none, complete⟩
        ("declare -gA " ++ variableName program family ++ "=(").toList =
          some ⟨some (variableName program family, []), complete⟩ := by
      simp only [hopening, step_table, Reading.takeTable, Text.cutAtFirst?_append hequals,
        String.ofList_toList]
    rw [tableLines, List.map_cons, List.foldlM_cons, hopen, List.map_append]
    show List.foldlM Reading.step _ _ = _
    rw [List.foldlM_append, foldlM_step_rows]
    rfl

/-- A table without rows, on one line. -/
theorem declares_empty {family : String} (program : String) (h : isName family = true) :
    Declares ["declare -gA " ++ variableName program family ++ "=()"]
      [.table (variableName program family) []] := by
  have hname := isName_variableName program h
  have hline : ("declare -gA " ++ variableName program family ++ "=()").toList =
      "declare -gA ".toList ++ ((variableName program family).toList ++ ['=', '(', ')']) := by
    have hvalue : "=()".toList = ['=', '(', ')'] := by decide
    simp only [String.toList_append, List.append_assoc, hvalue]
  constructor
  · intro line hsingle
    have hvalue : Passes '\n' ['=', '(', ')'] := passes_of_plain (by decide) (by decide)
    rw [List.mem_singleton.mp hsingle]
    exact hline ▸ passes_declaration (by decide) hname hvalue
  · intro complete
    have hequals := not_mem_of_isName hname (by decide : isIdentifierChar '=' = false)
    rw [List.map_singleton, List.foldlM_cons]
    simp only [hline, step_table, Reading.takeTable, Text.cutAtFirst?_append hequals,
      String.ofList_toList]
    rfl

/-! ### A whole script -/

/-- Lines that stay on their lines are found again. -/
theorem splitActive_ofLines {lines : List String} (h : ∀ line ∈ lines, Passes '\n' line.toList) :
    splitActive '\n' (Text.ofLines lines).toList = lines.map String.toList ++ [[]] := by
  induction lines with
  | nil => rfl
  | cons line lines ih =>
    rw [toList_ofLines_cons, splitActive_append_cons (h line List.mem_cons_self) (by decide),
      ih fun other hother => h other (List.mem_cons_of_mem line hother)]
    rfl

/-- **Lines that declare something are a script that declares it.** -/
theorem declarations?_ofLines {lines : List String} {declared : List Declaration}
    (h : Declares lines declared) : declarations? (Text.ofLines lines) = some declared := by
  have hlast : Reading.step ⟨none, declared⟩ [] = some ⟨none, declared⟩ := rfl
  have hread : (splitActive '\n' (Text.ofLines lines).toList).foldlM Reading.step {} =
      some ⟨none, declared⟩ := by
    rw [splitActive_ofLines h.passes, List.foldlM_append, h.read []]
    show List.foldlM Reading.step ⟨none, declared⟩ [[]] = _
    rw [List.foldlM_cons, hlast]
    rfl
  rw [declarations?, hread]

end ShellCompletion.Script.Bash
