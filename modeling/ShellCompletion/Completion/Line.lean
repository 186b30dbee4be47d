import ShellCompletion.Completion.Context
import ShellCompletion.Completion.Paths
import ShellCompletion.Matching.Matcher

/-!
# Completing a command line

The last word of a command line is completed at the place to which the words before it lead. It may
be the value of a flag: of the flag it is joined to by an equals sign, or of the flag just before
it. Values of a choice are matched, free texts are completed as paths, and everything else is
matched against the options of the place.
-/

namespace ShellCompletion

/-- What is offered for the last word. -/
inductive Completion where
  /-- Options or values. -/
  | candidates (items : List String)
  /-- Paths. -/
  | paths (items : List String)
  deriving DecidableEq, Repr

/-- What is offered, of either kind. -/
def Completion.items : Completion → List String
  | candidates items | paths items => items

/-- How the last word is to be completed. In both cases `lead` is put in front of what is
offered. -/
inductive Plan where
  /-- Match the pattern against the options. -/
  | choose (lead pattern : String) (options : List String)
  /-- Complete the word as a path. -/
  | list (lead word : String)
  deriving DecidableEq, Repr

namespace Plan

/-- The word that is completed as a path, if one is. -/
def pathWord? : Plan → Option String
  | choose _ _ _ => none
  | list _ word => some word

/-- Carries out a plan; `paths` tells the paths that are offered for a word. -/
def run (paths : String → List String) (matcher : Matcher) : Plan → Completion × Matcher
  | choose lead pattern options =>
    let (items, matcher) := matcher.filter pattern options
    (.candidates (items.map (lead ++ ·)), matcher)
  | list lead word => (.paths ((paths word).map (lead ++ ·)), matcher)

end Plan

/-- A word that joins a flag and its value by an equals sign, cut into the two. -/
def joinedFlag? (word : String) : Option (String × String) :=
  match Text.cutAtFirst? '=' word.toList with
  | some (before, after) =>
    let flag := String.ofList before
    if isFlagWord flag then some (flag, String.ofList after) else none
  | none => none

/-- The last of the words, if it looks like a flag. -/
def lastFlag? (words : List String) : Option String :=
  words.getLast?.filter isFlagWord

namespace Model

/-- The plan for the value of a flag at a place, if the flag is accepted there and takes a value. -/
def valuePlan? (model : Model) (path : ContextPath) (flag lead value : String) : Option Plan :=
  (model.flagParam? path flag).bind fun param =>
    match param.kind with
    | .choice => some (.choose lead value param.values)
    | .text => some (.list lead value)
    | .switch => none

/-- The plan for the word `current` behind the words `prior`. -/
def planWord (model : Model) (prior : List String) (current : String) : Plan :=
  let path := model.contextOf prior
  let valuePlan :=
    match joinedFlag? current with
    | some (flag, value) => model.valuePlan? path flag (flag ++ "=") value
    | none => (lastFlag? prior).bind fun flag => model.valuePlan? path flag "" current
  valuePlan.getD (.choose "" current ((model.options? path).getD []))

/-- The plan for the last of the words. -/
def plan (model : Model) (words : List String) : Plan :=
  model.planWord words.dropLast (words.getLast?.getD "")

/-- Completes the last of the words; `paths` tells the paths that are offered for a word. -/
def complete (paths : String → List String) (model : Model) (matcher : Matcher)
    (words : List String) : Completion × Matcher :=
  (model.plan words).run paths matcher

/-- Completes the last of the words with the paths that the surroundings offer. -/
def completeWithFiles {m : Type → Type} [Monad m] [FileAccess m] (model : Model)
    (matcher : Matcher) (words : List String) : m (Completion × Matcher) := do
  let plan := model.plan words
  let paths ← match plan.pathWord? with
    | some word => pathsFor word
    | none => pure []
  return plan.run (fun _ => paths) matcher

end Model

end ShellCompletion
