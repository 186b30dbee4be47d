import ShellCompletion.Tunables.Basic

/-!
# What a command line asks for

The requests that a command line can make, once its arguments are understood.
-/

namespace ShellCompletion.CommandLine

/-- Where the tunables come from: a file or the defaults, and what is put in their place one by
one. -/
structure Tuning where
  /-- The file. -/
  file : Option String := none
  /-- The fuzzy tier is off. -/
  noFuzzy : Bool := false
  /-- The longest list that is searched in full. -/
  maxCandidates : Option UInt64 := none
  /-- The shortest pattern of the fuzzy tier. -/
  minPatternLength : Option UInt64 := none
  /-- The least score of the fuzzy tier. -/
  scoreThreshold : Option UInt32 := none
  /-- The greatest number of fuzzy results. -/
  maxResults : Option UInt64 := none
  /-- The size of the memo. -/
  cacheMaxSize : Option UInt64 := none
  deriving DecidableEq, Repr, Inhabited

/-- Tunables with what is given in the place of each. -/
def Tuning.override (tuning : Tuning) (base : Tunables) : Tunables where
  fuzzyEnabled := base.fuzzyEnabled && !tuning.noFuzzy
  maxCandidates := tuning.maxCandidates.getD base.maxCandidates
  minPatternLength := tuning.minPatternLength.getD base.minPatternLength
  scoreThreshold := tuning.scoreThreshold.getD base.scoreThreshold
  maxResults := tuning.maxResults.getD base.maxResults
  cacheMaxSize := tuning.cacheMaxSize.getD base.cacheMaxSize

/-- A request for a script. -/
structure ScriptRequest where
  /-- The name of the shell. -/
  shell : String
  /-- The file of the tree. -/
  input : String
  /-- The file that takes the script, if it is not to be printed. -/
  output : Option String := none
  /-- The tree is taken without a check. -/
  skipValidation : Bool := false
  /-- The tunables in the script. -/
  tuning : Tuning := {}
  deriving DecidableEq, Repr

/-- What a command line asks for. -/
inductive Invocation where
  /-- Make a script. -/
  | generate (request : ScriptRequest)
  /-- Check tree files. -/
  | validate (inputs : List String)
  /-- Rank candidates against a pattern. -/
  | score (pattern : String) (candidates : List String) (tuning : Tuning)
  /-- Show the model of a tree, as JSON or as lines. -/
  | contexts (input : String) (json : Bool)
  /-- Complete the last of the words, the first being the program. -/
  | complete (input : String) (words : List String) (tuning : Tuning)
  deriving DecidableEq, Repr

/-- Why a command line asks for none of these. -/
inductive Stop where
  /-- It asks for help. -/
  | help
  /-- It asks for the version. -/
  | version
  /-- It makes no sense. -/
  | misuse
  deriving DecidableEq, Repr

end ShellCompletion.CommandLine
