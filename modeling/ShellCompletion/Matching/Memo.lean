import ShellCompletion.Matching.Score
import Std.Data.HashMap.Lemmas

/-!
# The memo of scores

A memo keeps the scores of pairs of pattern and candidate. It is bounded: an insertion that finds
more than `maxSize` scores in it empties it first, so it never holds more than one score beyond the
bound.
-/

namespace ShellCompletion.Matching

/-- Scores by pattern and candidate. -/
structure Memo where
  /-- The scores that are kept. -/
  scores : Std.HashMap (String × String) Nat := {}
  /-- The bound. -/
  maxSize : Nat

namespace Memo

/-- A memo with nothing in it. -/
def empty (maxSize : Nat) : Memo :=
  { maxSize }

/-- The score that is kept for a pair. -/
def get? (memo : Memo) (pattern candidate : String) : Option Nat :=
  memo.scores[(pattern, candidate)]?

/-- The number of scores that are kept. -/
def size (memo : Memo) : Nat :=
  memo.scores.size

/-- Nothing is kept. -/
def isEmpty (memo : Memo) : Bool :=
  memo.scores.isEmpty

/-- Keeps a score, after emptying a memo that has outgrown its bound. -/
def insert (memo : Memo) (pattern candidate : String) (value : Nat) : Memo :=
  let kept := if memo.maxSize < memo.scores.size then {} else memo.scores
  { memo with scores := kept.insert (pattern, candidate) value }

/-- The score of a pair: the one that is kept, or else a new one, which is then kept. -/
def score (memo : Memo) (pattern candidate : String) : Nat × Memo :=
  match memo.get? pattern candidate with
  | some value => (value, memo)
  | none =>
    let value := Matching.score pattern candidate
    (value, memo.insert pattern candidate value)

/-- The scores of a list of candidates, one after the other. -/
def scoreAll (pattern : String) (memo : Memo) : List String → List Nat × Memo
  | [] => ([], memo)
  | candidate :: rest =>
    let (value, memo) := memo.score pattern candidate
    let (values, memo) := scoreAll pattern memo rest
    (value :: values, memo)

/-- A score that has just been inserted is there. -/
theorem get?_insert_self (memo : Memo) (pattern candidate : String) (value : Nat) :
    (memo.insert pattern candidate value).get? pattern candidate = some value := by
  simp [insert, get?]

/-- An insertion leaves the bound as it is. -/
theorem maxSize_insert (memo : Memo) (pattern candidate : String) (value : Nat) :
    (memo.insert pattern candidate value).maxSize = memo.maxSize := rfl

end Memo

end ShellCompletion.Matching
