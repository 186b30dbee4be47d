import ShellCompletion.Proofs.Matching.Formula

/-!
# The gap below the full score

A candidate that does not begin with the pattern loses at least two points, wherever it goes wrong.
If a character is not found, both shares lose a point, and if the first one is found late, there is
no bonus. If all characters are found and only the run is broken, the share for the run loses a
point; but then other characters stand in between, so the candidate is longer than the pattern, and
that costs another point (`length_lt_of_found`).

Main statement: `score_eq_full_or_le`, for texts that have as many characters in lowercase as they
are typed with. The bound is reached: `score_just_below_full`.
-/

namespace ShellCompletion.Matching

/-! ### Texts that differ -/

section texts

variable {wanted offered : List Char}

/-- A text is longer than another if all characters of that are found in it, but not at the
beginning. -/
theorem length_lt_of_found (hall : (leftmost wanted 0 offered).length = wanted.length)
    (hdiffers : ¬wanted <+: offered) : wanted.length < offered.length := by
  have hpart : foundPart wanted offered = wanted := by
    rw [foundPart, hall, List.take_length]
  have hoccurs : wanted.Sublist offered := by
    have hsublist := foundPart_sublist wanted offered
    rwa [hpart] at hsublist
  refine Nat.lt_of_le_of_ne hoccurs.length_le fun heq => ?_
  exact hdiffers (hoccurs.eq_of_length heq ▸ List.prefix_rfl)

/-- If a text does not begin with another, something is lost in the search for its characters. -/
theorem scoreOfPlaces_leftmost_le (hdiffers : ¬wanted <+: offered) :
    scoreOfPlaces wanted.length offered.length (leftmost wanted 0 offered) ≤ 98 := by
  have hlength := length_leftmost_le wanted 0 offered
  rcases Nat.lt_or_eq_of_le hlength with hmissing | hall
  · exact scoreOfPlaces_le_of_missing hmissing
  by_cases hstart : (leftmost wanted 0 offered).head? = some 0
  · have hbroken : longestRun (leftmost wanted 0 offered) < wanted.length := by
      have hrun := longestRun_le (leftmost wanted 0 offered)
      refine Nat.lt_of_le_of_ne (hall ▸ hrun) fun hfull => ?_
      exact hdiffers (prefix_of_leftmost_full (hfull.trans hall.symm) hall hstart)
    have hlonger := length_lt_of_found hall hdiffers
    have hle : scoreOfPlaces wanted.length offered.length (leftmost wanted 0 offered) ≤
        99 - min (offered.length - wanted.length) maxLengthPenalty :=
      scoreOfPlaces_le_of_broken hlength hbroken
    rw [maxLengthPenalty] at hle
    omega
  · exact Nat.le_trans (scoreOfPlaces_le_of_late hlength hstart) (by decide)

end texts

/-! ### The gap -/

section gap

variable {pattern candidate : String}

/-- A candidate that does not begin with the pattern has a score of at most 98. -/
theorem score_le_of_not_begins (hpattern : (Text.lowercase pattern).length = pattern.length)
    (hcandidate : (Text.lowercase candidate).length = candidate.length)
    (hnot : ¬(pattern.length ≤ candidate.length ∧
      (Text.lowercase pattern).toList <+: (Text.lowercase candidate).toList)) :
    score pattern candidate ≤ 98 := by
  by_cases hlong : pattern.length ≤ candidate.length
  · have hdiffers : ¬(Text.lowercase pattern).toList <+: (Text.lowercase candidate).toList :=
      fun hbegins => hnot ⟨hlong, hbegins⟩
    by_cases hpresent :
        ∀ c ∈ (Text.lowercase pattern).toList, c ∈ (Text.lowercase candidate).toList
    · rw [score_eq_scoreOfPlaces hlong hdiffers hpresent, ← hpattern, ← hcandidate,
        ← String.length_toList, ← String.length_toList]
      exact scoreOfPlaces_leftmost_le hdiffers
    · push Not at hpresent
      obtain ⟨c, hwanted, hmissing⟩ := hpresent
      rw [score_eq_zero_of_not_mem hdiffers hwanted hmissing]
      exact Nat.zero_le 98
  · rw [score_eq_zero_of_length_lt (Nat.not_le.mp hlong)]
    exact Nat.zero_le 98

/-- **The full score, or two points less.** If both texts have as many characters in lowercase as
they are typed with, exactly the candidates that are long enough and begin with the pattern in
lowercase have 100 points, and all others have at most 98. -/
theorem score_eq_full_or_le (hpattern : (Text.lowercase pattern).length = pattern.length)
    (hcandidate : (Text.lowercase candidate).length = candidate.length) :
    (score pattern candidate = 100 ↔ pattern.length ≤ candidate.length ∧
      (Text.lowercase pattern).toList <+: (Text.lowercase candidate).toList) ∧
    (¬(pattern.length ≤ candidate.length ∧
        (Text.lowercase pattern).toList <+: (Text.lowercase candidate).toList) →
      score pattern candidate ≤ 98) := by
  have hless := score_le_of_not_begins hpattern hcandidate
  refine ⟨⟨?_, ?_⟩, hless⟩
  · intro hfull
    by_contra hnot
    have hle := hless hnot
    omega
  · rintro ⟨hlong, hbegins⟩
    exact score_eq_fullScore_of_prefix hlong hbegins

/-- One dash costs a candidate two points if it stands before the last character of the pattern, and
nothing behind it. -/
theorem score_just_below_full :
    let pattern := "Abcdefghijklmnopqrst"
    let begins := "abcdefghijklmnopqrst-"
    let differs := "abcdefghijklmnopqrs-t"
    (Text.lowercase pattern).length = pattern.length ∧
      (Text.lowercase begins).length = begins.length ∧
      (Text.lowercase differs).length = differs.length ∧
      score pattern begins = 100 ∧ score pattern differs ≤ 98 ∧ score pattern differs = 98 := by
  intro pattern begins differs
  have hpattern : (Text.lowercase pattern).length = pattern.length := by decide +kernel
  have hbegins : (Text.lowercase begins).length = begins.length := by decide +kernel
  have hdiffers : (Text.lowercase differs).length = differs.length := by decide +kernel
  have hfull : score pattern begins = 100 :=
    (score_eq_full_or_le hpattern hbegins).1.mpr (by decide +kernel)
  have hless : score pattern differs ≤ 98 :=
    (score_eq_full_or_le hpattern hdiffers).2 (by decide +kernel)
  exact ⟨hpattern, hbegins, hdiffers, hfull, hless, by decide +kernel⟩

end gap

end ShellCompletion.Matching
