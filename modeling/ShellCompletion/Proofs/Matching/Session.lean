import ShellCompletion.Completion.Line
import ShellCompletion.Matching.Matcher

/-!
# Sessions on one matcher

A matcher is used again and again, and what it has computed stays in its memo. This module says
that the memo never shows.

* **Honest memos** (`Memo.Honest`): whatever is kept for a pair is the score of that pair. The
  empty memo is honest, and an insertion keeps honesty even when it empties the memo first
  (`honest_insert`), so a pass of the fuzzy tier does too (`scoreAll_spec`).
* **The matcher without its memo** (`selectionFor`): on an honest memo `Matcher.select` answers as
  a function of the tunables alone (`transparent_select`).
* **Sessions** (`Matcher.session`): any calls in any order, over any models and file systems. Each
  of them answers as it would on a new matcher (`session_answers`).
-/

namespace ShellCompletion

open Matching

/-! ### Honest memos -/

namespace Matching.Memo

/-- Whatever the memo keeps for a pair is the score of that pair. -/
def Honest (memo : Memo) : Prop :=
  ∀ pattern candidate value, memo.get? pattern candidate = some value →
    value = Matching.score pattern candidate

/-- A memo without entries is honest. -/
theorem honest_empty (maxSize : Nat) : (empty maxSize).Honest := by
  intro pattern candidate value h
  simp [empty, get?] at h

/-- What a memo keeps after an insertion was inserted just now or was there before, whether or not
the memo was emptied in between. -/
theorem get?_insert_cases {memo : Memo} {p c : String} {v : Nat} {pattern candidate : String}
    {value : Nat} (h : (memo.insert p c v).get? pattern candidate = some value) :
    (pattern = p ∧ candidate = c ∧ value = v) ∨ memo.get? pattern candidate = some value := by
  simp only [insert, get?, Std.HashMap.getElem?_insert, beq_iff_eq, Prod.mk.injEq] at h
  split at h
  next hkey =>
    obtain ⟨rfl, rfl⟩ := hkey
    exact .inl ⟨rfl, rfl, (Option.some.inj h).symm⟩
  next =>
    split at h
    · simp at h
    · exact .inr h

/-- An honest memo stays honest when a true score is put in. -/
theorem honest_insert {memo : Memo} (h : memo.Honest) (pattern candidate : String) :
    (memo.insert pattern candidate (Matching.score pattern candidate)).Honest := by
  intro p c value hget
  rcases get?_insert_cases hget with ⟨rfl, rfl, rfl⟩ | hbefore
  · rfl
  · exact h p c value hbefore

/-- An honest memo answers with the true score, and stays honest. -/
theorem score_spec {memo : Memo} (h : memo.Honest) (pattern candidate : String) :
    (memo.score pattern candidate).1 = Matching.score pattern candidate ∧
      (memo.score pattern candidate).2.Honest := by
  unfold score
  split
  next value hget => exact ⟨h pattern candidate value hget, h⟩
  next => exact ⟨rfl, honest_insert h pattern candidate⟩

/-- One pass over a list scores every candidate rightly and leaves an honest memo behind. The
induction goes over all honest memos at once: an insertion may empty the memo at any point of the
pass, and what is left is honest all the same. -/
theorem scoreAll_spec (pattern : String) (candidates : List String) {memo : Memo}
    (h : memo.Honest) :
    (scoreAll pattern memo candidates).1 = candidates.map (Matching.score pattern) ∧
      (scoreAll pattern memo candidates).2.Honest := by
  induction candidates generalizing memo with
  | nil => exact ⟨rfl, h⟩
  | cons candidate rest ih =>
    obtain ⟨hvalue, hmemo⟩ := score_spec h pattern candidate
    obtain ⟨hvalues, hrest⟩ := ih hmemo
    refine ⟨?_, hrest⟩
    simp only [scoreAll, List.map_cons, hvalue, hvalues]

end Matching.Memo

/-! ### The matcher without its memo -/

namespace Matching

/-- What the fuzzy tier offers, from scores that are all computed anew. -/
def fuzzyFor (tunables : Tunables) (pattern : String) (candidates : List String) : List String :=
  if fuzzyApplies tunables pattern then
    rank tunables ((candidates.map (score pattern)).zip candidates)
  else []

/-- The answer of a matcher that keeps no scores. -/
def selectionFor (tunables : Tunables) (pattern : String) (candidates : List String) :
    Selection :=
  let exact := exactMatches pattern candidates
  let folded := foldedMatches pattern candidates
  let fuzzy := fuzzyFor tunables pattern candidates
  if tunables.maxCandidates.toNat < candidates.length then .ofTier .guarded exact
  else if exact ≠ [] then .ofTier .exactPrefix exact
  else if folded ≠ [] then .ofTier .foldedPrefix folded
  else if fuzzy ≠ [] then .ofTier .fuzzy fuzzy
  else .ofTier .substring (substringMatches pattern candidates)

end Matching

/-- The outcome of an operation of a matcher does not show the memo: it is the expected answer, and
it comes with a matcher that has the same tunables and an honest memo. -/
structure Matcher.Transparent {α : Type} (matcher : Matcher) (answer : α)
    (outcome : α × Matcher) : Prop where
  /-- The answer is the expected one. -/
  fst_eq : outcome.1 = answer
  /-- The tunables are still the same. -/
  tunables_eq : outcome.2.tunables = matcher.tunables
  /-- The memo is still honest. -/
  honest : outcome.2.memo.Honest

namespace Matcher

variable {matcher : Matcher}

/-- If an answer does not show the memo, neither does what is made of it. -/
theorem Transparent.map {α β : Type} {answer : α} {outcome : α × Matcher}
    (h : matcher.Transparent answer outcome) (f : α → β) :
    matcher.Transparent (f answer) (f outcome.1, outcome.2) :=
  ⟨congrArg f h.fst_eq, h.tunables_eq, h.honest⟩

/-- Scoring does not show the memo. -/
theorem transparent_score (h : matcher.memo.Honest) (pattern candidate : String) :
    matcher.Transparent (Matching.score pattern candidate) (matcher.score pattern candidate) := by
  obtain ⟨hvalue, hmemo⟩ := Memo.score_spec h pattern candidate
  exact ⟨hvalue, rfl, hmemo⟩

/-- The fuzzy matches do not show the memo. -/
theorem transparent_fuzzyMatches (h : matcher.memo.Honest) (pattern : String)
    (candidates : List String) :
    matcher.Transparent (fuzzyFor matcher.tunables pattern candidates)
      (matcher.fuzzyMatches pattern candidates) := by
  obtain ⟨hscores, hmemo⟩ := Memo.scoreAll_spec pattern candidates h
  unfold fuzzyMatches fuzzyFor
  split
  · exact ⟨by simp only [hscores], rfl, hmemo⟩
  · exact ⟨rfl, rfl, h⟩

/-- A selection does not show the memo. -/
theorem transparent_select (h : matcher.memo.Honest) (pattern : String)
    (candidates : List String) :
    matcher.Transparent (selectionFor matcher.tunables pattern candidates)
      (matcher.select pattern candidates) := by
  have hfuzzy := transparent_fuzzyMatches h pattern candidates
  simp only [select, selectionFor, ← hfuzzy.fst_eq]
  split
  · exact ⟨rfl, rfl, h⟩
  split
  · exact ⟨rfl, rfl, h⟩
  split
  · exact ⟨rfl, rfl, h⟩
  split
  · exact ⟨rfl, hfuzzy.tunables_eq, hfuzzy.honest⟩
  · exact ⟨rfl, hfuzzy.tunables_eq, hfuzzy.honest⟩

/-- Filtering does not show the memo. -/
theorem transparent_filter (h : matcher.memo.Honest) (pattern : String)
    (candidates : List String) :
    matcher.Transparent (selectionFor matcher.tunables pattern candidates).items
      (matcher.filter pattern candidates) :=
  (transparent_select h pattern candidates).map Selection.items

end Matcher

/-! ### Completing a line without a memo -/

/-- The paths that are offered for a word when the file system is `files`. -/
def pathsIn (files : FileSystem) (word : String) : List String :=
  ((pathsFor word : StateM FileSystem (List String)).run files).1

/-- What a plan comes to under a matcher that keeps no scores. -/
def Plan.completionFor (tunables : Tunables) (files : FileSystem) : Plan → Completion
  | .choose lead pattern options =>
    .candidates ((selectionFor tunables pattern options).items.map (lead ++ ·))
  | .list lead word => .paths ((pathsIn files word).map (lead ++ ·))

/-- Completes the last of the words in a file system. -/
def Model.completeIn (files : FileSystem) (model : Model) (matcher : Matcher)
    (words : List String) : Completion × Matcher :=
  ((model.completeWithFiles matcher words : StateM FileSystem _).run files).1

/-- The paths are asked for only when the plan calls for them. -/
theorem Model.completeIn_eq (files : FileSystem) (model : Model) (matcher : Matcher)
    (words : List String) :
    model.completeIn files matcher words = (model.plan words).run (pathsIn files) matcher := by
  unfold completeIn completeWithFiles
  cases model.plan words with
  | choose lead pattern options => rfl
  | list lead word => rfl

/-- The completion of a line does not show the memo. -/
theorem Matcher.transparent_completeIn {matcher : Matcher} (h : matcher.memo.Honest)
    (files : FileSystem) (model : Model) (words : List String) :
    matcher.Transparent ((model.plan words).completionFor matcher.tunables files)
      (model.completeIn files matcher words) := by
  rw [Model.completeIn_eq]
  cases model.plan words with
  | choose lead pattern options =>
    exact (transparent_filter h pattern options).map fun items =>
      Completion.candidates (items.map (lead ++ ·))
  | list lead word => exact ⟨rfl, rfl, h⟩

/-! ### Sessions -/

/-- A call on a matcher. A completion brings its own model and its own state of the files. -/
inductive Call where
  /-- The score of one candidate. -/
  | score (pattern candidate : String)
  /-- What is offered of a list. -/
  | filter (pattern : String) (candidates : List String)
  /-- What is offered of a list, with the tier. -/
  | select (pattern : String) (candidates : List String)
  /-- The completion of a command line. -/
  | complete (files : FileSystem) (model : Model) (words : List String)

/-- The answer to a call. -/
inductive Answer where
  | score (value : Nat)
  | items (items : List String)
  | selection (selection : Selection)
  | completion (completion : Completion)
  deriving DecidableEq, Repr

/-- The answer to a call when no scores are kept. -/
def Call.answerFor (tunables : Tunables) : Call → Answer
  | .score pattern candidate => .score (Matching.score pattern candidate)
  | .filter pattern candidates => .items (selectionFor tunables pattern candidates).items
  | .select pattern candidates => .selection (selectionFor tunables pattern candidates)
  | .complete files model words => .completion ((model.plan words).completionFor tunables files)

namespace Matcher

/-- Makes one call. -/
def perform (matcher : Matcher) : Call → Answer × Matcher
  | .score pattern candidate =>
    let (value, matcher) := matcher.score pattern candidate
    (.score value, matcher)
  | .filter pattern candidates =>
    let (items, matcher) := matcher.filter pattern candidates
    (.items items, matcher)
  | .select pattern candidates =>
    let (selection, matcher) := matcher.select pattern candidates
    (.selection selection, matcher)
  | .complete files model words =>
    let (completion, matcher) := model.completeIn files matcher words
    (.completion completion, matcher)

/-- Makes calls one after the other, each on the matcher that the one before it leaves. -/
def session (matcher : Matcher) : List Call → List Answer × Matcher
  | [] => ([], matcher)
  | call :: rest =>
    let (answer, matcher) := matcher.perform call
    let (answers, matcher) := matcher.session rest
    (answer :: answers, matcher)

/-- The matcher that a session leaves. -/
def after (matcher : Matcher) (calls : List Call) : Matcher :=
  (matcher.session calls).2

variable {matcher : Matcher}

/-- No call shows the memo. -/
theorem transparent_perform (h : matcher.memo.Honest) (call : Call) :
    matcher.Transparent (call.answerFor matcher.tunables) (matcher.perform call) := by
  cases call with
  | score pattern candidate => exact (transparent_score h pattern candidate).map Answer.score
  | filter pattern candidates => exact (transparent_filter h pattern candidates).map Answer.items
  | select pattern candidates =>
    exact (transparent_select h pattern candidates).map Answer.selection
  | complete files model words =>
    exact (transparent_completeIn h files model words).map Answer.completion

/-- A whole session on an honest memo does not show the memo. The step is `transparent_perform`;
honesty is what it hands on to the rest of the session. -/
theorem transparent_session (h : matcher.memo.Honest) (calls : List Call) :
    matcher.Transparent (calls.map (·.answerFor matcher.tunables)) (matcher.session calls) := by
  induction calls generalizing matcher with
  | nil => exact ⟨rfl, rfl, h⟩
  | cons call rest ih =>
    have hcall := transparent_perform h call
    have hrest := ih hcall.honest
    refine ⟨?_, hrest.tunables_eq.trans hcall.tunables_eq, hrest.honest⟩
    simp only [session, List.map_cons, hcall.fst_eq, hrest.fst_eq, hcall.tunables_eq]

/-- A new matcher has an honest memo. -/
theorem honest_new (tunables : Tunables) : (Matcher.new tunables).memo.Honest :=
  Memo.honest_empty _

/-- Every matcher that a session leaves has an honest memo. -/
theorem honest_after (tunables : Tunables) (calls : List Call) :
    ((Matcher.new tunables).after calls).memo.Honest :=
  (transparent_session (honest_new tunables) calls).honest

/-- A session does not change the tunables. -/
theorem tunables_after (tunables : Tunables) (calls : List Call) :
    ((Matcher.new tunables).after calls).tunables = tunables :=
  (transparent_session (honest_new tunables) calls).tunables_eq

/-- After a session, a list is answered for as by a matcher that keeps no scores. -/
theorem select_after (tunables : Tunables) (calls : List Call) (pattern : String)
    (candidates : List String) :
    (((Matcher.new tunables).after calls).select pattern candidates).1 =
      selectionFor tunables pattern candidates := by
  have hselect := transparent_select (honest_after tunables calls) pattern candidates
  rw [hselect.fst_eq, tunables_after]

/-- **The memo never shows.** In a session of any calls on one matcher, each call is answered as it
would be on a new matcher with the same tunables. -/
theorem session_answers (tunables : Tunables) (calls : List Call) :
    ((Matcher.new tunables).session calls).1 =
      calls.map fun call => ((Matcher.new tunables).perform call).1 := by
  have hnew := honest_new tunables
  rw [(transparent_session hnew calls).fst_eq]
  refine List.map_congr_left fun call _ => ?_
  exact (transparent_perform hnew call).fst_eq.symm

end Matcher

end ShellCompletion
