/-!
# Tunables of the matcher

The numbers that steer the matcher, with their defaults and the ranges they must lie in. A script
carries the same numbers, so it ranks as the library does.
-/

namespace ShellCompletion

/-- The tunables of the matcher. -/
structure Tunables where
  /-- The fuzzy tier may run. -/
  fuzzyEnabled : Bool := true
  /-- A longer list of candidates is only searched for exact prefixes. -/
  maxCandidates : UInt64 := 150
  /-- The shortest pattern that the fuzzy tier takes. -/
  minPatternLength : UInt64 := 2
  /-- The least score with which the fuzzy tier offers a candidate. -/
  scoreThreshold : UInt32 := 25
  /-- The greatest number of candidates that the fuzzy tier offers. -/
  maxResults : UInt64 := 10
  /-- The memo is emptied by the insertion that finds more scores than this in it. -/
  cacheMaxSize : UInt64 := 500
  deriving DecidableEq, Repr, Inhabited

namespace Tunables

/-- A tunable out of its range. -/
inductive OutOfRange where
  /-- No list of candidates is short enough. -/
  | maxCandidates
  /-- The fuzzy tier could never offer anything. -/
  | maxResults
  /-- The threshold is above the greatest score. -/
  | scoreThreshold (value : UInt32)
  deriving DecidableEq, Repr

/-- The message for the user. -/
def OutOfRange.message : OutOfRange → String
  | maxCandidates => "max_candidates must be at least 1"
  | maxResults => "max_results must be at least 1"
  | scoreThreshold value =>
    "score_threshold must be between 0 and 100, got " ++ toString value.toNat

/-- Checks the ranges and answers with the first tunable out of its own. -/
def check (tunables : Tunables) : Except OutOfRange Unit :=
  if tunables.maxCandidates = 0 then .error .maxCandidates
  else if tunables.maxResults = 0 then .error .maxResults
  else if 100 < tunables.scoreThreshold then .error (.scoreThreshold tunables.scoreThreshold)
  else .ok ()

end Tunables

end ShellCompletion
