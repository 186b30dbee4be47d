import ShellCompletion.Proofs.Matching.Formula

/-!
# No subsequence is lost

If the characters of a pattern occur in a candidate one after the other, with anything in between,
the search finds them all (`length_leftmost_of_sublist`). They are worth 60 points then, and the
length of the candidate takes off at most 10 (`le_scoreOfPlaces_of_all`). So such a candidate has 50
points, and a fuzzy tier that asks for no more does not miss it.

Main statement: `subsequence_not_lost`. About lowercase forms it needs to know only that they are
not shorter than the texts. The bound is reached: `subsequence_not_lost_spread`.
-/

namespace ShellCompletion.Matching

/-! ### Points that are kept -/

section kept

variable {wanted offered : List Char} {m n : Nat} {places : List Nat}

/-- The search finds all characters of a text that occurs as a subsequence. -/
theorem length_leftmost_of_sublist (h : wanted.Sublist offered) :
    (leftmost wanted 0 offered).length = wanted.length := by
  refine Nat.le_antisymm (length_leftmost_le wanted 0 offered) ?_
  rw [← length_foundPart]
  exact length_le_foundPart List.prefix_rfl h

/-- All that is shared out among the characters is gained if as many are found as the pattern has,
or more. -/
theorem le_scoreOfPlaces_of_all (hpos : 0 < m) (hall : m ≤ places.length) :
    50 ≤ scoreOfPlaces m n places := by
  have hfound : matchWeight ≤ places.length * matchWeight / m := by
    rw [Nat.le_div_iff_mul_le hpos, Nat.mul_comm]
    exact Nat.mul_le_mul_right matchWeight hall
  simp only [scoreOfPlaces, matchWeight, maxLengthPenalty, fullScore] at hfound ⊢
  -- whatever the run adds is not needed
  generalize longestRun places * runWeight / m = run
  omega

end kept

variable {pattern candidate : String}

/-- A subsequence has at least 50 points. -/
theorem le_score_of_sublist (hlong : pattern.length ≤ candidate.length)
    (hoccurs : (Text.lowercase pattern).toList.Sublist (Text.lowercase candidate).toList) :
    50 ≤ score pattern candidate := by
  by_cases hbegins : (Text.lowercase pattern).toList <+: (Text.lowercase candidate).toList
  · have hfull := score_eq_fullScore_of_prefix hlong hbegins
    rw [hfull]
    decide
  have hall : pattern.length ≤
      (leftmost (Text.lowercase pattern).toList 0 (Text.lowercase candidate).toList).length := by
    rw [length_leftmost_of_sublist hoccurs, String.length_toList]
    exact Text.length_le_length_lowercase pattern
  rw [score_eq_scoreOfPlaces hlong hbegins fun c hc => hoccurs.subset hc]
  exact le_scoreOfPlaces_of_all (length_pos_of_differs hbegins) hall

/-! ### The tier that answers -/

/-- **No subsequence is lost.** A candidate that is not shorter than the pattern and has its
characters, in lowercase, as a subsequence scores 50 points or more. So if the fuzzy tier applies,
asks for at most 50 points and may offer anything, then a list that is short enough and has such a
candidate gets an answer, and not from the last tier. -/
theorem subsequence_not_lost (hlong : pattern.length ≤ candidate.length)
    (hoccurs : (Text.lowercase pattern).toList.Sublist (Text.lowercase candidate).toList) :
    50 ≤ score pattern candidate ∧
      ∀ (tunables : Tunables) (history : List Call) (candidates : List String),
        tunables.fuzzyEnabled = true → tunables.scoreThreshold ≤ 50 → 1 ≤ tunables.maxResults →
        tunables.minPatternLength.toNat ≤ pattern.length →
        candidates.length ≤ tunables.maxCandidates.toNat → candidate ∈ candidates →
        let selection := (((Matcher.new tunables).after history).select pattern candidates).1
        selection.tier ≠ some .substring ∧ selection.tier ≠ none := by
  have hscore := le_score_of_sublist hlong hoccurs
  refine ⟨hscore, ?_⟩
  intro tunables history candidates hfuzzy hthreshold hroom hpattern hshort hmem
  have hqualifies : Qualifies tunables pattern candidate := by
    have hle := UInt32.le_iff_toNat_le.mp hthreshold
    exact Nat.le_trans (max_le (by decide) hle) hscore
  have hfinds : Finds tunables pattern candidates .fuzzy := by
    refine ⟨candidate, hmem, ?_, UInt64.le_iff_toNat_le.mp hroom, hqualifies⟩
    simp [fuzzyApplies, hfuzzy, hpattern]
  obtain ⟨tier, htier, hlast⟩ := exists_tier_of_finds_fuzzy hshort hfinds
  simp only [Matcher.select_after, htier]
  constructor
  · intro heq
    exact hlast (.inr (Option.some.inj heq))
  · exact Option.some_ne_none tier

/-- Letters that all stand apart, in a candidate that is much longer than the pattern. -/
theorem subsequence_not_lost_spread :
    let pattern := "Abcdefghijklmnopqrstu"
    let candidate := "-a-b-c-d-e-f-g-h-i-j-k-l-m-n-o-p-q-r-s-t-u"
    let tunables : Tunables := { scoreThreshold := 50, maxResults := 1 }
    let selection := (((Matcher.new tunables).after [.select pattern ["quiet"]]).select pattern
      ["quiet", candidate]).1
    pattern.length ≤ candidate.length ∧
      (Text.lowercase pattern).toList.Sublist (Text.lowercase candidate).toList ∧
      score pattern candidate = 50 ∧ 50 ≤ score pattern candidate ∧
      selection.tier ≠ some .substring ∧ selection.tier ≠ none := by
  intro pattern candidate tunables selection
  have hlong : pattern.length ≤ candidate.length := by decide +kernel
  have hoccurs : (Text.lowercase pattern).toList.Sublist (Text.lowercase candidate).toList := by
    decide +kernel
  obtain ⟨hscore, htier⟩ := subsequence_not_lost hlong hoccurs
  have hanswer := htier tunables [.select pattern ["quiet"]] ["quiet", candidate] rfl (by decide)
    (by decide) (by decide +kernel) (by decide) (by simp)
  exact ⟨hlong, hoccurs, by decide +kernel, hscore, hanswer⟩

end ShellCompletion.Matching
