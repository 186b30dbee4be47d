import ShellCompletion.Matching.Memo
import ShellCompletion.Tunables.Basic

/-!
# The matcher

Candidates are matched in tiers, and the first tier that keeps any of them answers:

* *guarded*: a list that is too long is only searched for candidates that begin with the pattern;
* *exact prefix*: the candidates that begin with the pattern;
* *folded prefix*: those that do so when case is ignored;
* *fuzzy*: the best scores, for a pattern that is long enough;
* *substring*: the candidates that contain the pattern when case is ignored.

Every tier but the fuzzy one keeps the order of the list.
-/

namespace ShellCompletion.Matching

/-- The tier that gave an answer. -/
inductive Tier where
  | guarded
  | exactPrefix
  | foldedPrefix
  | fuzzy
  | substring
  deriving DecidableEq, Repr

/-- The name of a tier. -/
def Tier.name : Tier → String
  | guarded => "guarded"
  | exactPrefix => "exact-prefix"
  | foldedPrefix => "folded-prefix"
  | fuzzy => "fuzzy"
  | substring => "substring"

/-- The answer of the matcher. -/
structure Selection where
  /-- The tier that gave the answer, if anything is offered. -/
  tier : Option Tier
  /-- What is offered, the best first. -/
  items : List String
  deriving DecidableEq, Repr

/-- The answer of a tier: it bears the name of the tier only if it offers something. -/
def Selection.ofTier (tier : Tier) (items : List String) : Selection :=
  { tier := if items = [] then none else some tier, items }

/-! ## The tiers -/

/-- The candidates that begin with the pattern. -/
def exactMatches (pattern : String) (candidates : List String) : List String :=
  candidates.filter fun candidate => Text.startsWith candidate pattern

/-- The candidates that begin with the pattern when case is ignored. -/
def foldedMatches (pattern : String) (candidates : List String) : List String :=
  let folded := Text.lowercase pattern
  candidates.filter fun candidate => Text.startsWith (Text.lowercase candidate) folded

/-- The candidates that contain the pattern when case is ignored. -/
def substringMatches (pattern : String) (candidates : List String) : List String :=
  let folded := Text.lowercase pattern
  candidates.filter fun candidate => Text.contains (Text.lowercase candidate) folded

/-- The candidates whose score reaches the threshold, by falling score; equal scores keep the order
of the list. Only the first `maxResults` are kept. -/
def rank (tunables : Tunables) (scored : List (Nat × String)) : List String :=
  let qualified := scored.filter fun entry =>
    0 < entry.1 && tunables.scoreThreshold.toNat ≤ entry.1
  let ranked := qualified.mergeSort fun a b => b.1 ≤ a.1
  (ranked.take tunables.maxResults.toNat).map (·.2)

/-- The fuzzy tier takes the pattern. -/
def fuzzyApplies (tunables : Tunables) (pattern : String) : Bool :=
  tunables.fuzzyEnabled && tunables.minPatternLength.toNat ≤ pattern.length

/-! ## The matcher -/

end ShellCompletion.Matching

namespace ShellCompletion

/-- A matcher: tunables, and a memo of the scores it has computed. -/
structure Matcher where
  /-- What steers the matcher. -/
  tunables : Tunables
  /-- The scores that are kept. -/
  memo : Matching.Memo

namespace Matcher

open Matching

/-- A matcher that has computed nothing yet. -/
def new (tunables : Tunables) : Matcher :=
  { tunables, memo := .empty tunables.cacheMaxSize.toNat }

/-- The score of a candidate. -/
def score (matcher : Matcher) (pattern candidate : String) : Nat × Matcher :=
  let (value, memo) := matcher.memo.score pattern candidate
  (value, { matcher with memo })

/-- What the fuzzy tier offers. A tier that does not apply computes no scores. -/
def fuzzyMatches (matcher : Matcher) (pattern : String) (candidates : List String) :
    List String × Matcher :=
  if fuzzyApplies matcher.tunables pattern then
    let (scores, memo) := matcher.memo.scoreAll pattern candidates
    (rank matcher.tunables (scores.zip candidates), { matcher with memo })
  else ([], matcher)

/-- Matches a list of candidates against a pattern. -/
def select (matcher : Matcher) (pattern : String) (candidates : List String) :
    Selection × Matcher :=
  let exact := exactMatches pattern candidates
  if matcher.tunables.maxCandidates.toNat < candidates.length then (.ofTier .guarded exact, matcher)
  else if exact ≠ [] then (.ofTier .exactPrefix exact, matcher)
  else
    let folded := foldedMatches pattern candidates
    if folded ≠ [] then (.ofTier .foldedPrefix folded, matcher)
    else
      let (fuzzy, matcher) := matcher.fuzzyMatches pattern candidates
      if fuzzy ≠ [] then (.ofTier .fuzzy fuzzy, matcher)
      else (.ofTier .substring (substringMatches pattern candidates), matcher)

/-- What `select` offers, without the tier. -/
def filter (matcher : Matcher) (pattern : String) (candidates : List String) :
    List String × Matcher :=
  let (selection, matcher) := matcher.select pattern candidates
  (selection.items, matcher)

end Matcher

end ShellCompletion
