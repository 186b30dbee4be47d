import Mathlib.Data.Finset.Card
import ShellCompletion.Proofs.Matching.Tiers

/-!
# What the memo keeps

The memo does not grow without end: an insertion that finds it outgrown empties it first. So what it
keeps is what has been inserted since it was last emptied, and how much that is goes up and down.

* **Since it was emptied** (`SinceEmptied`): the last insertions of a run, from the one that emptied
  the memo on. The memo keeps the last score of each pair among them (`Keeps`), which one more
  insertion carries on (`Keeps.insert`) and so a run does (`exists_sinceEmptied`).
* **How many scores** (`size_insertAll_le`, `size_insertAll_of_nodup`): at most one beyond the bound,
  and the number goes round from one to that while all pairs are new.
* **The memo of a matcher** (`Grown`, `grown_after`) comes from insertions of scores alone. A list
  that is matched brings them about only if it comes to the fuzzy tier (`ComesToFuzzy`).

Main statement: `memo_bookkeeping`.
-/

namespace ShellCompletion

namespace Matching

/-- A pair of pattern and candidate, with the score that is inserted for it. -/
abbrev Insertion := (String × String) × Nat

namespace Memo

/-- Makes insertions one after the other. -/
def insertAll (memo : Memo) (insertions : List Insertion) : Memo :=
  insertions.foldl (fun memo insertion => memo.insert insertion.1.1 insertion.1.2 insertion.2) memo

/-- The next insertion empties the memo first. -/
def IsOutgrown (memo : Memo) : Prop :=
  memo.maxSize < memo.size

instance (memo : Memo) : Decidable memo.IsOutgrown :=
  inferInstanceAs (Decidable (_ < _))

/-- In a run that begins with an empty memo, the insertions `since` are those from the last one on
that emptied it, and `before` are the ones before. -/
structure SinceEmptied (maxSize : Nat) (before since : List Insertion) : Prop where
  /-- The first of them emptied the memo, unless it is the first of all. -/
  opens : before ≠ [] → since ≠ [] ∧ ((empty maxSize).insertAll before).IsOutgrown
  /-- None of the others did. -/
  others : ∀ front, front ≠ [] → front <+: since → front ≠ since →
    ¬((empty maxSize).insertAll (before ++ front)).IsOutgrown

/-- The memo keeps the last score of each pair among the insertions, and nothing else. -/
structure Keeps (memo : Memo) (since : List Insertion) : Prop where
  /-- What is kept for a pair is the last of its scores, if there is one. -/
  get?_eq : ∀ pattern candidate, memo.get? pattern candidate =
    since.reverse.lookup (pattern, candidate)
  /-- As many scores are kept as there are pairs. -/
  size_eq : memo.size = (since.map Prod.fst).toFinset.card

/-! ### One insertion -/

/-- Insertions leave the bound as it is. -/
theorem maxSize_insertAll (memo : Memo) (insertions : List Insertion) :
    (memo.insertAll insertions).maxSize = memo.maxSize := by
  induction insertions generalizing memo with
  | nil => rfl
  | cons insertion rest ih => exact ih _

/-- Insertions in a row can be made in two parts. -/
theorem insertAll_append (memo : Memo) (insertions more : List Insertion) :
    memo.insertAll (insertions ++ more) = (memo.insertAll insertions).insertAll more :=
  List.foldl_append

/-- The last insertion of a run is made in what the others leave. -/
theorem insertAll_concat (memo : Memo) (insertions : List Insertion) (insertion : Insertion) :
    memo.insertAll (insertions ++ [insertion]) =
      (memo.insertAll insertions).insert insertion.1.1 insertion.1.2 insertion.2 :=
  insertAll_append memo insertions [insertion]

/-- A memo that began empty has outgrown its bound just if it has more entries than that. -/
theorem isOutgrown_insertAll_iff {maxSize : Nat} {insertions : List Insertion} :
    ((empty maxSize).insertAll insertions).IsOutgrown ↔
      maxSize < ((empty maxSize).insertAll insertions).size := by
  rw [IsOutgrown, maxSize_insertAll]
  rfl

/-- A memo without entries has not outgrown its bound. -/
theorem not_isOutgrown_empty (maxSize : Nat) : ¬(empty maxSize).IsOutgrown := by
  simp [IsOutgrown, empty, size]

/-- An insertion that finds the memo outgrown leaves nothing of what was there. -/
theorem insert_of_isOutgrown {memo : Memo} (h : memo.IsOutgrown) (pattern candidate : String)
    (value : Nat) :
    memo.insert pattern candidate value =
      (empty memo.maxSize).insert pattern candidate value := by
  have hfull : memo.maxSize < memo.scores.size := h
  have hroom : ¬(empty memo.maxSize).maxSize < (empty memo.maxSize).scores.size :=
    not_isOutgrown_empty memo.maxSize
  rw [insert, insert, if_pos hfull, if_neg hroom]
  rfl

/-- With no need to empty the memo, an insertion changes the answer for its own pair and no other.
-/
theorem get?_insert_of_not_isOutgrown {memo : Memo} (h : ¬memo.IsOutgrown)
    (p c pattern candidate : String) (value : Nat) :
    (memo.insert p c value).get? pattern candidate =
      if (p, c) = (pattern, candidate) then some value else memo.get? pattern candidate := by
  have hroom : ¬memo.maxSize < memo.scores.size := h
  rw [insert, if_neg hroom, get?, get?, Std.HashMap.getElem?_insert]
  simp only [beq_iff_eq]

/-- With no need to empty the memo, an insertion adds an entry if the pair is new. -/
theorem size_insert_of_not_isOutgrown {memo : Memo} (h : ¬memo.IsOutgrown)
    (pattern candidate : String) (value : Nat) :
    (memo.insert pattern candidate value).size =
      if memo.get? pattern candidate = none then memo.size + 1 else memo.size := by
  have hroom : ¬memo.maxSize < memo.scores.size := h
  rw [insert, if_neg hroom, size, Std.HashMap.size_insert, get?]
  by_cases hmem : (pattern, candidate) ∈ memo.scores
  · simp [hmem, size]
  · simp [hmem, size]

namespace Keeps

variable {memo : Memo} {since : List Insertion}

/-- A memo without entries keeps what no insertions leave. -/
theorem empty (maxSize : Nat) : Keeps (Memo.empty maxSize) [] :=
  ⟨fun _ _ => by simp [Memo.empty, get?], by simp [Memo.empty, size]⟩

/-- Nothing is kept for a pair exactly if none of the insertions is for it. -/
theorem get?_eq_none_iff (h : memo.Keeps since) {pattern candidate : String} :
    memo.get? pattern candidate = none ↔ (pattern, candidate) ∉ since.map Prod.fst := by
  rw [h.get?_eq, List.lookup_eq_none_iff]
  constructor
  · intro hnone hmem
    obtain ⟨insertion, hinsertion, hpair⟩ := List.mem_map.mp hmem
    have hother := hnone insertion (List.mem_reverse.mpr hinsertion)
    rw [hpair, bne_self_eq_false] at hother
    exact Bool.false_ne_true hother
  · intro hnone insertion hinsertion
    refine bne_iff_ne.mpr fun hpair => hnone ?_
    rw [hpair]
    exact List.mem_map_of_mem (List.mem_reverse.mp hinsertion)

/-- An insertion into a memo that is not outgrown is kept with the others. -/
theorem insert (h : memo.Keeps since) (hroom : ¬memo.IsOutgrown) (insertion : Insertion) :
    (memo.insert insertion.1.1 insertion.1.2 insertion.2).Keeps (since ++ [insertion]) := by
  obtain ⟨⟨p, c⟩, value⟩ := insertion
  constructor
  · intro pattern candidate
    rw [get?_insert_of_not_isOutgrown hroom, h.get?_eq, List.reverse_append, List.reverse_singleton,
      List.singleton_append, List.lookup_cons]
    by_cases hpair : (p, c) = (pattern, candidate)
    · rw [if_pos hpair, ← hpair, beq_self_eq_true]
    · rw [if_neg hpair, beq_false_of_ne (Ne.symm hpair)]
  · rw [size_insert_of_not_isOutgrown hroom, h.size_eq, List.map_append, List.toFinset_append]
    by_cases hnew : (p, c) ∈ since.map Prod.fst
    · have hkept : memo.get? p c ≠ none := fun hnone => h.get?_eq_none_iff.mp hnone hnew
      have hsame : (since.map Prod.fst).toFinset ∪ {(p, c)} = (since.map Prod.fst).toFinset :=
        Finset.union_eq_left.mpr (Finset.singleton_subset_iff.mpr (List.mem_toFinset.mpr hnew))
      rw [if_neg hkept]
      exact congrArg Finset.card hsame.symm
    · have hfresh : (p, c) ∉ (since.map Prod.fst).toFinset := mt List.mem_toFinset.mp hnew
      rw [if_pos (h.get?_eq_none_iff.mpr hnew)]
      exact (Finset.card_union_of_disjoint (Finset.disjoint_singleton_right.mpr hfresh)).symm

/-- After an insertion that empties the memo, it alone is kept. -/
theorem insert_of_isOutgrown (hfull : memo.IsOutgrown) (insertion : Insertion) :
    (memo.insert insertion.1.1 insertion.1.2 insertion.2).Keeps [insertion] := by
  rw [Memo.insert_of_isOutgrown hfull]
  exact (Keeps.empty memo.maxSize).insert (not_isOutgrown_empty memo.maxSize) insertion

end Keeps

/-! ### A run of insertions -/

/-- Every run ends with insertions since the memo was last emptied, and these are what it keeps. The
induction goes over the last insertion: either it empties the memo, and begins anew, or it is made
in addition to those since then. -/
theorem exists_sinceEmptied (maxSize : Nat) (insertions : List Insertion) :
    ∃ before since, insertions = before ++ since ∧ SinceEmptied maxSize before since ∧
      ((empty maxSize).insertAll insertions).Keeps since := by
  induction insertions using List.reverseRecOn with
  | nil =>
    refine ⟨[], [], rfl, ⟨fun hne => absurd rfl hne, ?_⟩, Keeps.empty maxSize⟩
    intro front hne hfront
    exact absurd (List.prefix_nil.mp hfront) hne
  | append_singleton insertions insertion ih =>
    obtain ⟨before, since, rfl, hsince, hkeeps⟩ := ih
    rw [insertAll_concat]
    by_cases hfull : ((empty maxSize).insertAll (before ++ since)).IsOutgrown
    · refine ⟨before ++ since, [insertion], rfl, ⟨fun _ => ⟨List.cons_ne_nil _ _, hfull⟩, ?_⟩,
        Keeps.insert_of_isOutgrown hfull insertion⟩
      intro front hne hfront hproper
      rcases List.prefix_cons_iff.mp hfront with hnone | ⟨tail, rfl, htail⟩
      · exact absurd hnone hne
      · rw [List.prefix_nil.mp htail] at hproper
        exact absurd rfl hproper
    · refine ⟨before, since ++ [insertion], List.append_assoc _ _ _, ⟨?_, ?_⟩,
        hkeeps.insert hfull insertion⟩
      · intro hbefore
        exact ⟨List.concat_ne_nil _ _, (hsince.opens hbefore).2⟩
      · intro front hne hfront hproper
        rcases List.prefix_concat_iff.mp hfront with hall | hfront
        · exact absurd hall hproper
        -- the new insertion has not found the memo outgrown, and so have not those before it
        · by_cases hwhole : front = since
          · rwa [hwhole]
          · exact hsince.others front hne hfront hwhole

/-- Where the memo was last emptied is settled by the insertions: behind the earlier of two places
none may have found the memo outgrown, but the later place did. -/
theorem SinceEmptied.before_eq {maxSize : Nat} {before between since : List Insertion}
    (h : SinceEmptied maxSize before (between ++ since))
    (h' : SinceEmptied maxSize (before ++ between) since) : between = [] := by
  by_contra hne
  obtain ⟨hsince, hfull⟩ := h'.opens (List.append_ne_nil_of_right_ne_nil before hne)
  refine h.others between hne (List.prefix_append between since) ?_ hfull
  intro hwhole
  exact hsince (List.self_eq_append_right.mp hwhole)

/-- The insertions since the memo was last emptied are the same however they are found. -/
theorem SinceEmptied.unique {maxSize : Nat} {before since before' since' : List Insertion}
    (h : SinceEmptied maxSize before since) (h' : SinceEmptied maxSize before' since')
    (heq : before ++ since = before' ++ since') : since = since' := by
  rcases List.append_eq_append_iff.mp heq with ⟨between, rfl, rfl⟩ | ⟨between, rfl, rfl⟩
  · rw [h.before_eq h', List.nil_append]
  · rw [h'.before_eq h, List.nil_append]

/-! ### How many scores are kept -/

/-- An insertion leaves at most one score beyond the bound, whatever was there before. -/
theorem size_insert_le (memo : Memo) (pattern candidate : String) (value : Nat) :
    (memo.insert pattern candidate value).size ≤ memo.maxSize + 1 := by
  by_cases hfull : memo.IsOutgrown
  · rw [insert_of_isOutgrown hfull, size_insert_of_not_isOutgrown (not_isOutgrown_empty _)]
    have hempty : (empty memo.maxSize).size = 0 := rfl
    split <;> omega
  · have hsize : memo.size ≤ memo.maxSize := Nat.le_of_not_lt hfull
    rw [size_insert_of_not_isOutgrown hfull]
    split <;> omega

/-- A memo never has more than one entry beyond its bound. -/
theorem size_insertAll_le (maxSize : Nat) (insertions : List Insertion) :
    ((empty maxSize).insertAll insertions).size ≤ maxSize + 1 := by
  rcases insertions.eq_nil_or_concat with rfl | ⟨before, last, rfl⟩
  · exact Nat.zero_le _
  · rw [List.concat_eq_append, insertAll_concat]
    have hle := size_insert_le ((empty maxSize).insertAll before) last.1.1 last.1.2 last.2
    rwa [maxSize_insertAll] at hle

/-- A new pair makes one score more, or the only one in a memo that has been emptied for it. -/
theorem size_insert_of_get?_eq_none {memo : Memo} {pattern candidate : String} (value : Nat)
    (h : memo.get? pattern candidate = none) :
    (memo.insert pattern candidate value).size =
      if memo.IsOutgrown then 1 else memo.size + 1 := by
  by_cases hfull : memo.IsOutgrown
  · have hlone := (Keeps.insert_of_isOutgrown hfull ((pattern, candidate), value)).size_eq
    rw [if_pos hfull, hlone]
    rfl
  · rw [if_neg hfull, size_insert_of_not_isOutgrown hfull, if_pos h]

/-- A pair that was never inserted is not found. -/
theorem get?_insertAll_eq_none {maxSize : Nat} {insertions : List Insertion}
    {pair : String × String} (h : pair ∉ insertions.map Prod.fst) :
    ((empty maxSize).insertAll insertions).get? pair.1 pair.2 = none := by
  obtain ⟨before, since, rfl, -, hkeeps⟩ := exists_sinceEmptied maxSize insertions
  refine hkeeps.get?_eq_none_iff.mpr fun hmem => h ?_
  rw [List.map_append]
  exact List.mem_append_right _ hmem

/-- What comes next to a number that goes round from one to `m + 1`. -/
theorem next_mod_add_one (n m : Nat) :
    (if m < n % (m + 1) + 1 then 1 else n % (m + 1) + 1 + 1) = (n + 1) % (m + 1) + 1 := by
  have hround : n % (m + 1) < m + 1 := Nat.mod_lt n (Nat.succ_pos m)
  rw [← Nat.mod_add_mod n (m + 1) 1]
  split
  next hfull =>
    have hlast : n % (m + 1) = m := by omega
    rw [hlast, Nat.mod_self]
  next hroom => rw [Nat.mod_eq_of_lt (Nat.lt_of_not_le hroom)]

/-- While all pairs are new, the number of scores goes round from one to one beyond the bound. -/
theorem size_insertAll_of_nodup (maxSize : Nat) (insertions : List Insertion)
    (h : (insertions.map Prod.fst).Nodup) (hne : insertions ≠ []) :
    ((empty maxSize).insertAll insertions).size =
      (insertions.length - 1) % (maxSize + 1) + 1 := by
  induction insertions using List.reverseRecOn with
  | nil => exact absurd rfl hne
  | append_singleton insertions insertion ih =>
    rw [List.map_append, List.map_singleton, List.nodup_append] at h
    obtain ⟨hnodup, -, hapart⟩ := h
    have hnew : insertion.1 ∉ insertions.map Prod.fst := fun hmem =>
      hapart _ hmem _ (List.mem_singleton_self _) rfl
    rw [insertAll_concat, size_insert_of_get?_eq_none _ (get?_insertAll_eq_none hnew),
      List.length_append, List.length_singleton, Nat.add_sub_cancel]
    by_cases hfirst : insertions = []
    · rw [hfirst]
      exact if_neg (not_isOutgrown_empty maxSize)
    · have hpos : 0 < insertions.length := List.length_pos_iff.mpr hfirst
      simp only [isOutgrown_insertAll_iff, ih hnodup hfirst]
      rw [next_mod_add_one, Nat.sub_add_cancel hpos]

example : ((empty 2).insertAll
    [(("p", "a"), 1), (("p", "b"), 2), (("p", "c"), 3), (("p", "d"), 4)]).size = 1 :=
  size_insertAll_of_nodup 2 _ (by decide) (by decide)

/-! ### Insertions of scores -/

/-- The second memo comes from the first by insertions of scores. -/
def Grown (memo memo' : Memo) : Prop :=
  ∃ pairs : List (String × String),
    memo' = memo.insertAll (pairs.map fun pair => (pair, Matching.score pair.1 pair.2))

namespace Grown

variable {memo memo' memo'' : Memo}

/-- Nothing has to be inserted for a memo to be what it is. -/
theorem refl (memo : Memo) : memo.Grown memo :=
  ⟨[], rfl⟩

/-- Insertions may be followed by others. -/
theorem trans (h : memo.Grown memo') (h' : memo'.Grown memo'') : memo.Grown memo'' := by
  obtain ⟨pairs, rfl⟩ := h
  obtain ⟨more, rfl⟩ := h'
  exact ⟨pairs ++ more, by rw [List.map_append, insertAll_append]⟩

end Grown

/-- A score that is looked up leaves a memo that insertions could have made. -/
theorem grown_score (memo : Memo) (pattern candidate : String) :
    memo.Grown (memo.score pattern candidate).2 := by
  unfold score
  split
  next => exact .refl memo
  next => exact ⟨[(pattern, candidate)], rfl⟩

/-- Scores that are looked up one after the other leave a memo that insertions could have made. -/
theorem grown_scoreAll (pattern : String) (candidates : List String) (memo : Memo) :
    memo.Grown (memo.scoreAll pattern candidates).2 := by
  induction candidates generalizing memo with
  | nil => exact .refl memo
  | cons candidate rest ih => exact (grown_score memo pattern candidate).trans (ih _)

end Memo

/-! ### The memo of a matcher -/

/-- The list comes to the fuzzy tier, and the fuzzy tier takes the pattern. -/
structure ComesToFuzzy (tunables : Tunables) (pattern : String) (candidates : List String) :
    Prop where
  /-- The list is not too long. -/
  length_le : candidates.length ≤ tunables.maxCandidates.toNat
  /-- No candidate begins with the pattern. -/
  no_exact : ∀ candidate ∈ candidates, ¬pattern.toList <+: candidate.toList
  /-- Nor does any when case is ignored. -/
  no_folded : ∀ candidate ∈ candidates,
    ¬(Text.lowercase pattern).toList <+: (Text.lowercase candidate).toList
  /-- The fuzzy tier is there. -/
  enabled : tunables.fuzzyEnabled = true
  /-- The pattern is long enough. -/
  length_ge : tunables.minPatternLength.toNat ≤ pattern.length

end Matching

open Matching

namespace Matcher

/-- The fuzzy matches touch the memo only where they are asked for, and then by the scores of the
candidates. -/
theorem memo_fuzzyMatches (matcher : Matcher) (pattern : String) (candidates : List String) :
    (matcher.fuzzyMatches pattern candidates).2.memo =
      if fuzzyApplies matcher.tunables pattern then (matcher.memo.scoreAll pattern candidates).2
      else matcher.memo := by
  rw [fuzzyMatches]
  split <;> rfl

/-- A list that does not come to the fuzzy tier leaves the memo as it is. One that does is scored. -/
theorem memo_select (matcher : Matcher) (pattern : String) (candidates : List String) :
    (matcher.select pattern candidates).2.memo = matcher.memo ∨
      ComesToFuzzy matcher.tunables pattern candidates ∧
        (matcher.select pattern candidates).2.memo =
          (matcher.memo.scoreAll pattern candidates).2 := by
  rw [select]
  split
  next => exact .inl rfl
  next hlength =>
  split
  next => exact .inl rfl
  next hexact =>
  dsimp only
  split
  next => exact .inl rfl
  next hfolded =>
    -- the tiers that are left both hand on what the fuzzy one leaves
    rw [apply_ite Prod.snd, ite_self, memo_fuzzyMatches]
    split
    next hfuzzy =>
      rw [fuzzyApplies, Bool.and_eq_true, decide_eq_true_eq] at hfuzzy
      rw [ne_eq, not_not, exactMatches_eq, List.filter_eq_nil_iff] at hexact
      rw [ne_eq, not_not, foldedMatches_eq, List.filter_eq_nil_iff] at hfolded
      refine .inr ⟨⟨Nat.le_of_not_lt hlength, ?_, ?_, hfuzzy.1, hfuzzy.2⟩, rfl⟩
      · exact fun candidate hmem hbegins => hexact candidate hmem (decide_eq_true hbegins)
      · exact fun candidate hmem hbegins => hfolded candidate hmem (decide_eq_true hbegins)
    next => exact .inl rfl

variable {matcher : Matcher}

/-- A memo that has changed tells that the fuzzy tier was reached. -/
theorem comesToFuzzy_of_memo_filter_ne {pattern : String} {candidates : List String}
    (h : (matcher.filter pattern candidates).2.memo ≠ matcher.memo) :
    ComesToFuzzy matcher.tunables pattern candidates :=
  ((matcher.memo_select pattern candidates).resolve_left h).1

/-- A completion that changes the memo matches a list that comes to the fuzzy tier. -/
theorem comesToFuzzy_of_memo_completeIn_ne {files : FileSystem} {model : Model}
    {words : List String} (h : (model.completeIn files matcher words).2.memo ≠ matcher.memo) :
    ∃ lead pattern options, model.plan words = .choose lead pattern options ∧
      ComesToFuzzy matcher.tunables pattern options := by
  rw [Model.completeIn_eq] at h
  cases hplan : model.plan words with
  | choose lead pattern options =>
    rw [hplan] at h
    exact ⟨lead, pattern, options, rfl, comesToFuzzy_of_memo_filter_ne h⟩
  | list lead word =>
    rw [hplan] at h
    exact absurd rfl h

/-- A selection leaves a memo that insertions could have made. -/
theorem grown_select (matcher : Matcher) (pattern : String) (candidates : List String) :
    matcher.memo.Grown (matcher.select pattern candidates).2.memo := by
  rcases matcher.memo_select pattern candidates with hsame | ⟨-, hscored⟩
  · rw [hsame]
    exact .refl _
  · rw [hscored]
    exact Memo.grown_scoreAll pattern candidates _

/-- Each call leaves a memo that insertions could have made. -/
theorem grown_perform (matcher : Matcher) (call : Call) :
    matcher.memo.Grown (matcher.perform call).2.memo := by
  cases call with
  | score pattern candidate => exact Memo.grown_score matcher.memo pattern candidate
  | filter pattern candidates => exact grown_select matcher pattern candidates
  | select pattern candidates => exact grown_select matcher pattern candidates
  | complete files model words =>
    rw [perform, Model.completeIn_eq]
    cases model.plan words with
    | choose lead pattern options => exact grown_select matcher pattern options
    | list lead word => exact .refl _

/-- Whatever has been called, the memo comes from insertions of scores into an empty one. -/
theorem grown_after (matcher : Matcher) (history : List Call) :
    matcher.memo.Grown (matcher.after history).memo := by
  induction history generalizing matcher with
  | nil => exact .refl _
  | cons call rest ih => exact (grown_perform matcher call).trans (ih _)

end Matcher

/-- **The books of the memo.** Every run of insertions has one last part since the memo was emptied,
and the memo keeps the last score of each pair in that part and nothing else. It never holds more
than one score beyond its bound, always the one inserted last, and while all pairs are new the number
of scores goes round from one to that. The memo of a matcher, whatever has been called, comes from
such a run of insertions of scores, so that what it keeps for a pair is the score of that pair. A
list that is matched, or a line that is completed, changes it only if the list comes to the fuzzy
tier. -/
theorem memo_bookkeeping (maxSize : Nat) (insertions : List Insertion) (tunables : Tunables)
    (history : List Call) :
    let memo := (Memo.empty maxSize).insertAll insertions
    let matcher := (Matcher.new tunables).after history
    ((∃! since, (∃ before, insertions = before ++ since ∧ Memo.SinceEmptied maxSize before since) ∧
        memo.Keeps since) ∧
      memo.size ≤ maxSize + 1 ∧
      (∀ pattern candidate value,
        (memo.insert pattern candidate value).get? pattern candidate = some value) ∧
      (insertions ≠ [] → (insertions.map Prod.fst).Nodup →
        memo.size = (insertions.length - 1) % (maxSize + 1) + 1)) ∧
    (Memo.empty tunables.cacheMaxSize.toNat).Grown matcher.memo ∧
    (∀ pattern candidate value, matcher.memo.get? pattern candidate = some value →
      value = Matching.score pattern candidate) ∧
    (∀ pattern candidates, (matcher.filter pattern candidates).2.memo ≠ matcher.memo →
      ComesToFuzzy tunables pattern candidates) ∧
    ∀ files (model : Model) words,
      (model.completeIn files matcher words).2.memo ≠ matcher.memo →
        ∃ lead pattern options, model.plan words = .choose lead pattern options ∧
          ComesToFuzzy tunables pattern options := by
  intro memo matcher
  have htunables : matcher.tunables = tunables := Matcher.tunables_after tunables history
  refine ⟨⟨?_, Memo.size_insertAll_le maxSize insertions, memo.get?_insert_self, ?_⟩,
    Matcher.grown_after _ history, Matcher.honest_after tunables history, ?_, ?_⟩
  -- the last part does not depend on how the run is cut
  · obtain ⟨before, since, hparts, hsince, hkeeps⟩ := Memo.exists_sinceEmptied maxSize insertions
    refine ⟨since, ⟨⟨before, hparts, hsince⟩, hkeeps⟩, ?_⟩
    rintro other ⟨⟨before', hparts', hother⟩, -⟩
    exact hother.unique hsince (hparts'.symm.trans hparts)
  · intro hne hnodup
    exact Memo.size_insertAll_of_nodup maxSize insertions hnodup hne
  · intro pattern candidates hchanged
    rw [← htunables]
    exact Matcher.comesToFuzzy_of_memo_filter_ne hchanged
  · intro files model words hchanged
    rw [← htunables]
    exact Matcher.comesToFuzzy_of_memo_completeIn_ne hchanged

/-- Four pairs go round a bound of two, and a pattern that is matched for the first time changes the
memo. -/
theorem memo_bookkeeping_first_pattern :
    let insertions := [(("p", "a"), 1), (("p", "b"), 2), (("p", "c"), 3), (("p", "d"), 4)]
    let matcher := (Matcher.new {}).after []
    insertions ≠ [] ∧ (insertions.map Prod.fst).Nodup ∧
      ((Memo.empty 2).insertAll insertions).size = 1 ∧
      (matcher.filter "sr" ["start"]).2.memo ≠ matcher.memo ∧
      ComesToFuzzy {} "sr" ["start"] := by
  intro insertions matcher
  have hne : insertions ≠ [] := List.cons_ne_nil _ _
  have hnodup : (insertions.map Prod.fst).Nodup := by decide
  have hchanged : (matcher.filter "sr" ["start"]).2.memo ≠ matcher.memo := by
    have hexact : exactMatches "sr" ["start"] = [] := by decide +kernel
    have hfolded : foldedMatches "sr" ["start"] = [] := by decide +kernel
    have hnew : matcher.memo.get? "sr" "start" = none := by
      simp [matcher, Matcher.after, Matcher.session, Matcher.new, Memo.empty, Memo.get?]
    have hscored : (matcher.filter "sr" ["start"]).2.memo =
        matcher.memo.insert "sr" "start" (Matching.score "sr" "start") := by
      rw [Matcher.filter, Matcher.select, hexact, hfolded, if_neg (by decide), if_neg (by decide)]
      dsimp only
      rw [if_neg (by decide), apply_ite Prod.snd, ite_self, Matcher.memo_fuzzyMatches,
        if_pos (by decide), Memo.scoreAll, Memo.score, hnew]
      rfl
    intro hsame
    have hkept := matcher.memo.get?_insert_self "sr" "start" (Matching.score "sr" "start")
    rw [← hscored, hsame, hnew] at hkept
    cases hkept
  obtain ⟨⟨-, -, -, hround⟩, -, -, hfilter, -⟩ := memo_bookkeeping 2 insertions {} []
  exact ⟨hne, hnodup, (hround hne hnodup).trans (by decide), hchanged,
    hfilter "sr" ["start"] hchanged⟩

end ShellCompletion
