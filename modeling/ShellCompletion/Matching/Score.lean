import ShellCompletion.Text.Lowercase
import ShellCompletion.Text.Search

/-!
# Scores

How well a candidate fits a pattern, from 0 to 100, without regard to case. A candidate that begins
with the pattern has the full score. Otherwise the characters of the pattern are looked for in the
candidate from left to right, each as early as possible behind the one before it; the score counts
how many are found and how long the longest unbroken run of them is, adds a bonus when the first
of them opens the candidate, and takes off what the candidate is longer than the pattern.
-/

namespace ShellCompletion.Matching

/-- The full score. -/
def fullScore : Nat := 100

/-- What is shared out among the characters of the pattern that are found. -/
def matchWeight : Nat := 60

/-- What is shared out among the characters of the longest run. -/
def runWeight : Nat := 20

/-- The bonus for a match that begins where the candidate begins. -/
def startBonus : Nat := 20

/-- The most that a long candidate loses. -/
def maxLengthPenalty : Nat := 10

/-- The places at which the characters `wanted` are found one after the other, each as early as
possible; `place` is the number of the next character of the candidate. The search ends at the
first character that is not found. -/
def leftmost (wanted : List Char) (place : Nat) : List Char → List Nat
  | [] => []
  | c :: rest =>
    match wanted with
    | [] => []
    | w :: ws =>
      if c = w then place :: leftmost ws (place + 1) rest else leftmost (w :: ws) (place + 1) rest

/-- The length of the longest block of consecutive numbers, when `run` numbers that end with `last`
have just been counted. -/
def longestRunAfter (last run : Nat) : List Nat → Nat
  | [] => run
  | place :: rest =>
    if place = last + 1 then longestRunAfter place (run + 1) rest
    else max run (longestRunAfter place 1 rest)

/-- The length of the longest block of consecutive numbers. -/
def longestRun : List Nat → Nat
  | [] => 0
  | place :: rest => longestRunAfter place 1 rest

/-- The score of places found for a pattern of `m` characters in a candidate of `n` characters. -/
def scoreOfPlaces (m n : Nat) (places : List Nat) : Nat :=
  let found := places.length * matchWeight / m
  let run := longestRun places * runWeight / m
  let bonus := if places.head? = some 0 then startBonus else 0
  min (found + run + bonus - min (n - m) maxLengthPenalty) fullScore

/-- The score of a candidate. The lengths are those of the texts as they are typed; all else looks
at their lowercase forms. -/
def score (pattern candidate : String) : Nat :=
  let m := pattern.length
  let n := candidate.length
  if n < m then 0
  else
    let wanted := (Text.lowercase pattern).toList
    let offered := (Text.lowercase candidate).toList
    if wanted.isPrefixOf offered then fullScore
    else if wanted.all (offered.contains ·) then scoreOfPlaces m n (leftmost wanted 0 offered)
    else 0

end ShellCompletion.Matching
