import Mathlib.Data.List.Infix
import ShellCompletion.Proofs.Matching.Ranking

/-!
# Which tier answers, and with what

The matcher asks its tiers one after the other. Here each tier is described by what it would offer,
and the answer is the first offer that is not empty (`firstOffer`).

* All tiers but the fuzzy one offer every candidate that meets a condition on its characters, as
  often as the list has it and in the order of the list (`tierOffers`).
* The fuzzy tier offers what stands at the places of the one `Ranking` of the list.

Main statement: `select_eq_firstOffer`, for a matcher after any session.
-/

namespace ShellCompletion.Matching

/-! ### Offers of the tiers -/

/-- The first offer that is not empty, with its tier. -/
def firstOffer : List (Tier × List String) → Selection
  | [] => { tier := none, items := [] }
  | (tier, items) :: rest =>
    if items = [] then firstOffer rest else { tier := some tier, items }

/-- What the tiers would offer, in the order in which they are asked, when `best` is what the fuzzy
tier finds. A list that is too long is put to the guarded tier alone. -/
def tierOffers (tunables : Tunables) (pattern : String) (candidates best : List String) :
    List (Tier × List String) :=
  if tunables.maxCandidates.toNat < candidates.length then
    [(.guarded, candidates.filter fun c => pattern.toList <+: c.toList)]
  else
    [(.exactPrefix, candidates.filter fun c => pattern.toList <+: c.toList),
      (.foldedPrefix, candidates.filter fun c =>
        (Text.lowercase pattern).toList <+: (Text.lowercase c).toList),
      (.fuzzy, if tunables.fuzzyEnabled = true ∧ tunables.minPatternLength.toNat ≤ pattern.length
        then best else []),
      (.substring, candidates.filter fun c =>
        (Text.lowercase pattern).toList <:+: (Text.lowercase c).toList)]

/-- A tier that offers nothing hands over to the next, and the last one is answered for anyway. -/
theorem ofTier_eq_firstOffer (tier : Tier) (items : List String) :
    Selection.ofTier tier items = firstOffer [(tier, items)] := by
  unfold Selection.ofTier firstOffer firstOffer
  split
  next h => rw [h]
  next => rfl

/-- A tier that has something to offer is the first to do so. -/
theorem firstOffer_cons_of_ne_nil {tier : Tier} {items : List String} (h : items ≠ [])
    (rest : List (Tier × List String)) :
    firstOffer ((tier, items) :: rest) = Selection.ofTier tier items := by
  simp only [firstOffer, Selection.ofTier, if_neg h]

/-- A tier that has nothing to offer is passed over. -/
theorem firstOffer_cons_nil (tier : Tier) (rest : List (Tier × List String)) :
    firstOffer ((tier, []) :: rest) = firstOffer rest := by
  simp only [firstOffer, if_true]

/-! ### The conditions on the characters -/

variable (pattern : String) (candidates : List String)

/-- The exact matches are the candidates that begin with the pattern. -/
theorem exactMatches_eq :
    exactMatches pattern candidates =
      candidates.filter fun c => pattern.toList <+: c.toList := by
  refine List.filter_congr fun c _ => ?_
  rw [Bool.eq_iff_iff, Text.startsWith_iff, decide_eq_true_iff]

/-- The folded matches are the candidates that begin with the pattern in lower case. -/
theorem foldedMatches_eq :
    foldedMatches pattern candidates =
      candidates.filter fun c => (Text.lowercase pattern).toList <+: (Text.lowercase c).toList := by
  refine List.filter_congr fun c _ => ?_
  rw [Bool.eq_iff_iff, Text.startsWith_iff, decide_eq_true_iff]

/-- The substring matches are the candidates with the pattern in them in lower case. -/
theorem substringMatches_eq :
    substringMatches pattern candidates =
      candidates.filter fun c =>
        (Text.lowercase pattern).toList <:+: (Text.lowercase c).toList := by
  refine List.filter_congr fun c _ => ?_
  rw [Bool.eq_iff_iff, Text.contains, Text.occursIn_iff, decide_eq_true_iff]

/-- Where fuzzy matching applies, its matches are the candidates at the top places. -/
theorem fuzzyFor_eq (tunables : Tunables) :
    fuzzyFor tunables pattern candidates =
      if tunables.fuzzyEnabled = true ∧ tunables.minPatternLength.toNat ≤ pattern.length
      then (topPlaces tunables pattern candidates).map candidates.get else [] := by
  unfold fuzzyFor fuzzyApplies
  rw [rank_eq_map_topPlaces]
  simp only [Bool.and_eq_true, decide_eq_true_eq]

/-! ### The answer -/

/-- A selection is the first offer among those of all tiers. -/
theorem selectionFor_eq_firstOffer (tunables : Tunables) :
    selectionFor tunables pattern candidates =
      firstOffer (tierOffers tunables pattern candidates
        ((topPlaces tunables pattern candidates).map candidates.get)) := by
  unfold selectionFor tierOffers
  rw [← exactMatches_eq, ← foldedMatches_eq, ← substringMatches_eq, ← fuzzyFor_eq]
  simp only []
  split
  · exact ofTier_eq_firstOffer _ _
  -- each tier either answers or is empty, and then drops out of the list of offers
  by_cases hexact : exactMatches pattern candidates = []
  · rw [if_neg (not_not.mpr hexact), hexact, firstOffer_cons_nil]
    by_cases hfolded : foldedMatches pattern candidates = []
    · rw [if_neg (not_not.mpr hfolded), hfolded, firstOffer_cons_nil]
      by_cases hfuzzy : fuzzyFor tunables pattern candidates = []
      · rw [if_neg (not_not.mpr hfuzzy), hfuzzy, firstOffer_cons_nil]
        exact ofTier_eq_firstOffer _ _
      · rw [if_pos hfuzzy, firstOffer_cons_of_ne_nil hfuzzy]
    · rw [if_pos hfolded, firstOffer_cons_of_ne_nil hfolded]
  · rw [if_pos hexact, firstOffer_cons_of_ne_nil hexact]

/-- **What a matcher answers.** After any session, the answer is the first offer of the tiers that
is not empty, where the fuzzy tier offers the candidates at the places of the ranking, of which
there is exactly one. -/
theorem select_eq_firstOffer (tunables : Tunables) (history : List Call) :
    ∃! places : List (Fin candidates.length), Ranking tunables pattern candidates places ∧
      (((Matcher.new tunables).after history).select pattern candidates).1 =
        firstOffer (tierOffers tunables pattern candidates (places.map candidates.get)) := by
  have hranking := ranking_topPlaces tunables pattern candidates
  refine ⟨topPlaces tunables pattern candidates, ⟨hranking, ?_⟩, ?_⟩
  · have hselect := Matcher.transparent_select (Matcher.honest_after tunables history) pattern
      candidates
    rw [hselect.fst_eq, Matcher.tunables_after, selectionFor_eq_firstOffer]
  · rintro others ⟨hothers, -⟩
    exact hothers.unique hranking

end ShellCompletion.Matching
