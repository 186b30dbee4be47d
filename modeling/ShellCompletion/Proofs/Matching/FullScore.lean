import Mathlib.Data.List.Infix
import ShellCompletion.Proofs.Matching.Offers
import ShellCompletion.Proofs.Text.FinalSigma

/-!
# Who has the full score

A candidate that begins with the pattern should have the full score, and the tiers for prefixes
offer such candidates. But the score looks at the lowercase forms and, before that, at the lengths
of the texts as they are typed, while the tiers look at the texts or at their lowercase forms alone.
This module says where the two judgements part.

* **Places in a row** (`eq_range'_of_longestRun`, `prefix_of_leftmost_full`): characters that are
  found next to each other from the start on are a beginning of the candidate.
* **Points that are lost** (`scoreOfPlaces_le_of_missing`, `scoreOfPlaces_le_of_broken`,
  `scoreOfPlaces_le_of_late`): each of the three parts of a score has to be as large as it can be
  for the full score (`full_of_scoreOfPlaces`).
* **The score in full** (`score_eq_fullScore_of_prefix`, `prefix_of_score_eq_fullScore`).

Main statement: `score_of_prefix_tier`, for a matcher after any session; what a sigma that turns
does to the score is `score_lt_fullScore_of_sigmaTurns`. That prefixes may miss the full score, or
any score at all, is `prefixes_without_score`.
-/

namespace ShellCompletion.Matching

/-! ### Places in a row -/

/-- A run is no longer than what has been counted of it and the places that follow. -/
theorem longestRunAfter_le (last run : Nat) (places : List Nat) :
    longestRunAfter last run places ≤ run + places.length := by
  induction places generalizing last run with
  | nil => exact Nat.le_refl run
  | cons place rest ih =>
    have hnext := ih place (run + 1)
    have hanew := ih place 1
    rw [longestRunAfter, List.length_cons]
    split
    · omega
    · omega

/-- Only numbers that all continue the block bring it to its greatest length. -/
theorem eq_range'_of_longestRunAfter {last run : Nat} {places : List Nat} (hrun : 0 < run)
    (h : longestRunAfter last run places = run + places.length) :
    places = List.range' (last + 1) places.length := by
  induction places generalizing last run with
  | nil => rfl
  | cons place rest ih =>
    rw [longestRunAfter, List.length_cons] at h
    split at h
    next hplace =>
      have hrest := @ih place (run + 1) (by omega) (by omega)
      rw [List.length_cons, List.range'_succ, ← hplace, ← hrest]
    next =>
      have hanew := longestRunAfter_le place 1 rest
      omega

/-- No run is longer than the list of places. -/
theorem longestRun_le (places : List Nat) : longestRun places ≤ places.length := by
  cases places with
  | nil => exact Nat.le_refl 0
  | cons place rest =>
    have hrest := longestRunAfter_le place 1 rest
    rw [longestRun, List.length_cons]
    omega

/-- If the longest run is the whole list, the numbers are consecutive. -/
theorem eq_range'_of_longestRun {place : Nat} {rest : List Nat}
    (h : longestRun (place :: rest) = (place :: rest).length) :
    place :: rest = List.range' place (place :: rest).length := by
  rw [longestRun, List.length_cons, Nat.add_comm] at h
  have hrest := eq_range'_of_longestRunAfter Nat.one_pos h
  rw [List.length_cons, List.range'_succ, ← hrest]

/-- No more characters are found than are wanted. -/
theorem length_leftmost_le (wanted : List Char) (place : Nat) (offered : List Char) :
    (leftmost wanted place offered).length ≤ wanted.length := by
  induction offered generalizing wanted place with
  | nil => exact Nat.zero_le _
  | cons c rest ih =>
    cases wanted with
    | nil => exact Nat.le_refl 0
    | cons w ws =>
      rw [leftmost]
      split
      · exact Nat.succ_le_succ (ih ws (place + 1))
      · exact ih (w :: ws) (place + 1)

/-- Nothing is found before the place that the search starts from. -/
theorem le_of_mem_leftmost {wanted offered : List Char} {place found : Nat}
    (h : found ∈ leftmost wanted place offered) : place ≤ found := by
  induction offered generalizing wanted place with
  | nil => exact absurd h List.not_mem_nil
  | cons c rest ih =>
    cases wanted with
    | nil => exact absurd h List.not_mem_nil
    | cons w ws =>
      rw [leftmost] at h
      split at h
      · rcases List.mem_cons.mp h with rfl | hrest
        · exact Nat.le_refl _
        · exact Nat.le_of_succ_le (ih hrest)
      · exact Nat.le_of_succ_le (ih h)

/-- Characters found in a row, from the first place on, stand at the beginning. -/
theorem prefix_of_leftmost_eq_range' {wanted offered : List Char} {place : Nat}
    (h : leftmost wanted place offered = List.range' place wanted.length) : wanted <+: offered := by
  induction offered generalizing wanted place with
  | nil =>
    have hlength := congrArg List.length h
    rw [leftmost, List.length_range', List.length_nil] at hlength
    rw [List.length_eq_zero_iff.mp hlength.symm]
  | cons c rest ih =>
    cases wanted with
    | nil => exact List.nil_prefix
    | cons w ws =>
      rw [leftmost, List.length_cons, List.range'_succ] at h
      split at h
      next hc =>
        rw [hc, List.prefix_cons_inj]
        exact ih (List.cons.inj h).2
      next =>
        -- the first place would have been passed over
        have hmem : place ∈ leftmost (w :: ws) (place + 1) rest := h ▸ List.mem_cons_self
        have hle := le_of_mem_leftmost hmem
        omega

/-- A text of which all characters are found, in one run from the start on, stands at the
beginning. -/
theorem prefix_of_leftmost_full {wanted offered : List Char}
    (hrun : longestRun (leftmost wanted 0 offered) = (leftmost wanted 0 offered).length)
    (hall : (leftmost wanted 0 offered).length = wanted.length)
    (hstart : (leftmost wanted 0 offered).head? = some 0) : wanted <+: offered := by
  obtain ⟨rest, hplaces⟩ := List.head?_eq_some_iff.mp hstart
  rw [hplaces] at hrun
  have hrow := eq_range'_of_longestRun hrun
  rw [← hplaces, hall] at hrow
  exact prefix_of_leftmost_eq_range' hrow

/-! ### Points that are lost -/

section lost

variable {m n count weight : Nat} {places : List Nat}

/-- A share of the points is at most all of them. -/
theorem share_le (h : count ≤ m) : count * weight / m ≤ weight :=
  Nat.div_le_of_le_mul (Nat.mul_le_mul_right weight h)

/-- A share is short of all points where something is missing. -/
theorem share_lt (h : count < m) (hweight : 0 < weight) : count * weight / m < weight :=
  Nat.div_lt_of_lt_mul (Nat.mul_lt_mul_of_pos_right h hweight)

/-- A character that is missing costs a point of what is shared out among the characters, and one of
what is shared out for the longest run. -/
theorem scoreOfPlaces_le_of_missing (h : places.length < m) : scoreOfPlaces m n places ≤ 98 := by
  have hfound : places.length * matchWeight / m < matchWeight := share_lt h (by decide)
  have hrun : longestRun places * runWeight / m < runWeight :=
    share_lt (Nat.lt_of_le_of_lt (longestRun_le places) h) (by decide)
  simp only [scoreOfPlaces, matchWeight, runWeight, startBonus] at hfound hrun ⊢
  split <;> omega

/-- A run that is broken costs a point, besides what the candidate is longer. -/
theorem scoreOfPlaces_le_of_broken (h : places.length ≤ m) (hbroken : longestRun places < m) :
    scoreOfPlaces m n places ≤ 99 - min (n - m) maxLengthPenalty := by
  have hfound : places.length * matchWeight / m ≤ matchWeight := share_le h
  have hrun : longestRun places * runWeight / m < runWeight := share_lt hbroken (by decide)
  simp only [scoreOfPlaces, matchWeight, runWeight, startBonus] at hfound hrun ⊢
  split <;> omega

/-- A run that begins late costs the bonus. -/
theorem scoreOfPlaces_le_of_late (h : places.length ≤ m) (hlate : places.head? ≠ some 0) :
    scoreOfPlaces m n places ≤ 80 := by
  have hfound : places.length * matchWeight / m ≤ matchWeight := share_le h
  have hrun : longestRun places * runWeight / m ≤ runWeight :=
    share_le (Nat.le_trans (longestRun_le places) h)
  simp only [scoreOfPlaces, matchWeight, runWeight, if_neg hlate] at hfound hrun ⊢
  omega

/-- The full score takes all characters, in one run, from the start on. -/
theorem full_of_scoreOfPlaces (hlength : places.length ≤ m)
    (h : scoreOfPlaces m n places = fullScore) :
    longestRun places = places.length ∧ places.length = m ∧ places.head? = some 0 := by
  rw [fullScore] at h
  have hall : places.length = m := by
    by_contra hmissing
    have hle : scoreOfPlaces m n places ≤ 98 :=
      scoreOfPlaces_le_of_missing (Nat.lt_of_le_of_ne hlength hmissing)
    omega
  have hrun : longestRun places = places.length := by
    by_contra hbroken
    have hlt := Nat.lt_of_le_of_ne (longestRun_le places) hbroken
    have hle : scoreOfPlaces m n places ≤ 99 - min (n - m) maxLengthPenalty :=
      scoreOfPlaces_le_of_broken hlength (hall ▸ hlt)
    omega
  have hstart : places.head? = some 0 := by
    by_contra hlate
    have hle : scoreOfPlaces m n places ≤ 80 := scoreOfPlaces_le_of_late hlength hlate
    omega
  exact ⟨hrun, hall, hstart⟩

end lost

/-! ### The score in full -/

variable {pattern candidate : String}

/-- A candidate that is long enough and begins with the pattern in lowercase has the full score. -/
theorem score_eq_fullScore_of_prefix (hlength : pattern.length ≤ candidate.length)
    (hbegins : (Text.lowercase pattern).toList <+: (Text.lowercase candidate).toList) :
    score pattern candidate = fullScore := by
  unfold score
  rw [if_neg (Nat.not_lt.mpr hlength), if_pos (List.isPrefixOf_iff_prefix.mpr hbegins)]

/-- A candidate that is shorter than the pattern has no score. -/
theorem score_eq_zero_of_length_lt (h : candidate.length < pattern.length) :
    score pattern candidate = 0 := by
  unfold score
  rw [if_pos h]

/-- No score is greater than the full one. -/
theorem score_le_fullScore (pattern candidate : String) : score pattern candidate ≤ fullScore := by
  simp only [score]
  split
  · exact Nat.zero_le _
  · split
    · exact Nat.le_refl _
    · split
      · exact Nat.min_le_right _ _
      · exact Nat.zero_le _

/-- A candidate with the full score begins with the pattern in lowercase, as long as the pattern has
in lowercase as many characters as before. -/
theorem prefix_of_score_eq_fullScore
    (hpattern : (Text.lowercase pattern).length = pattern.length)
    (h : score pattern candidate = fullScore) :
    (Text.lowercase pattern).toList <+: (Text.lowercase candidate).toList := by
  simp only [score] at h
  split at h
  · exact absurd h (by decide)
  · split at h
    next hbegins => exact List.isPrefixOf_iff_prefix.mp hbegins
    next =>
      split at h
      · have hle := length_leftmost_le (Text.lowercase pattern).toList 0
          (Text.lowercase candidate).toList
        rw [String.length_toList, hpattern] at hle
        obtain ⟨hrun, hall, hstart⟩ := full_of_scoreOfPlaces hle h
        rw [← hpattern, ← String.length_toList] at hall
        exact prefix_of_leftmost_full hrun hall hstart
      · exact absurd h (by decide)

/-! ### The tiers for prefixes -/

/-- The pattern breaks off behind a sigma where the candidate goes on with the word. -/
def SigmaTurns (pattern candidate : String) : Prop :=
  Text.SigmaTurns [] pattern.toList (candidate.toList.drop pattern.length)

/-- Only a pattern with a capital sigma can break off behind one. -/
theorem SigmaTurns.mem (h : SigmaTurns pattern candidate) : 'Σ' ∈ pattern.toList := by
  obtain ⟨front, marks, hpattern, -⟩ := h
  rw [hpattern]
  exact List.mem_append_right front List.mem_cons_self

/-- A candidate that begins with the pattern does so in lowercase unless the last sigma of the
pattern turns. -/
theorem lowercase_prefix_iff (h : pattern.toList <+: candidate.toList) :
    (Text.lowercase pattern).toList <+: (Text.lowercase candidate).toList ↔
      ¬SigmaTurns pattern candidate := by
  obtain ⟨rest, hcandidate⟩ := h
  have hrest : candidate.toList.drop pattern.length = rest := by
    rw [← hcandidate, ← String.length_toList, List.drop_left]
  rw [SigmaTurns, hrest, ← Text.lowercaseAfter_prefix_iff, hcandidate, Text.lowercase,
    Text.lowercase, String.toList_ofList, String.toList_ofList]

/-- Without the one capital that becomes two characters, a text in lower case is as long as before.
-/
theorem length_lowercase_of_not_mem (h : 'İ' ∉ pattern.toList) :
    (Text.lowercase pattern).length = pattern.length := by
  rw [Text.lowercase, String.length_ofList, Text.length_lowercaseAfter h, String.length_toList]

/-- A candidate in which the last sigma of the pattern turns has less than the full score, at least
if there is no dotted capital I in the pattern. -/
theorem score_lt_fullScore_of_sigmaTurns (hbegins : pattern.toList <+: candidate.toList)
    (hdotted : 'İ' ∉ pattern.toList) (hsigma : SigmaTurns pattern candidate) :
    score pattern candidate < fullScore := by
  refine Nat.lt_of_le_of_ne (score_le_fullScore pattern candidate) fun hfull => ?_
  have hlower := prefix_of_score_eq_fullScore (length_lowercase_of_not_mem hdotted) hfull
  exact (lowercase_prefix_iff hbegins).mp hlower hsigma

/-- **Prefixes and the full score.** After any session: a candidate that is offered because it
begins with the pattern has the full score, as long as no sigma turns. A candidate that is offered
because it begins with the pattern in lowercase has the full score if it is not shorter than the
pattern, and else none. -/
theorem score_of_prefix_tier (tunables : Tunables) (history : List Call) (pattern : String)
    (candidates : List String) :
    let selection := (((Matcher.new tunables).after history).select pattern candidates).1
    (selection.tier = some .guarded ∨ selection.tier = some .exactPrefix →
      ∀ candidate ∈ selection.items,
        ¬SigmaTurns pattern candidate → score pattern candidate = fullScore) ∧
    (selection.tier = some .foldedPrefix → ∀ candidate ∈ selection.items,
      score pattern candidate = if pattern.length ≤ candidate.length then fullScore else 0) := by
  have hselect := Matcher.transparent_select (Matcher.honest_after tunables history) pattern
    candidates
  rw [hselect.fst_eq, Matcher.tunables_after]
  constructor
  · intro htier candidate hmem hsigma
    have hitems : (selectionFor tunables pattern candidates).items =
        exactMatches pattern candidates := by
      rcases htier with hguarded | hexact
      · exact items_of_tier hguarded
      · exact items_of_tier hexact
    rw [hitems, exactMatches, List.mem_filter, Text.startsWith_iff] at hmem
    have hbegins := hmem.2
    refine score_eq_fullScore_of_prefix ?_ ((lowercase_prefix_iff hbegins).mpr hsigma)
    rw [← String.length_toList, ← String.length_toList]
    exact hbegins.length_le
  · intro htier candidate hmem
    rw [items_of_tier htier, offerOf, foldedMatches, List.mem_filter, Text.startsWith_iff] at hmem
    split
    next hlength => exact score_eq_fullScore_of_prefix hlength hmem.2
    next hshort => exact score_eq_zero_of_length_lt (Nat.not_le.mp hshort)

/-- A guarded list, a list with a candidate that begins with the pattern, and one with a candidate
that does so in lowercase, each after a session. -/
theorem score_of_prefix_tier_each :
    let matcher := (Matcher.new {}).after [.filter "v" ["v"]]
    let guarded := (((Matcher.new { maxCandidates := 1 }).after [.filter "v" ["v"]]).select "ver"
      ["Verbose", "verbose"]).1
    let exact := (matcher.select "ver" ["quiet", "verbose"]).1
    let folded := (matcher.select "ver" ["Verbose", "quiet"]).1
    (guarded = ⟨some .guarded, ["verbose"]⟩ ∧ exact = ⟨some .exactPrefix, ["verbose"]⟩ ∧
        ¬SigmaTurns "ver" "verbose" ∧ score "ver" "verbose" = fullScore) ∧
      folded = ⟨some .foldedPrefix, ["Verbose"]⟩ ∧ score "ver" "Verbose" = fullScore := by
  have hlatin : ¬SigmaTurns "ver" "verbose" := fun h => absurd h.mem (by decide)
  have hexact := (score_of_prefix_tier {} [.filter "v" ["v"]] "ver" ["quiet", "verbose"]).1
    (.inr (by decide)) "verbose" (by decide) hlatin
  have hfolded := (score_of_prefix_tier {} [.filter "v" ["v"]] "ver" ["Verbose", "quiet"]).2
    (by decide) "Verbose" (by decide)
  exact ⟨⟨by decide, by decide, hlatin, hexact⟩, by decide, hfolded⟩

/-- **Prefixes without a score.** A capital sigma at the end of the pattern, and a dotted capital I
in a candidate that its lowercase form exceeds. Both candidates are offered as prefixes. -/
theorem prefixes_without_score :
    ((Matcher.new {}).select "ΑΣ" ["ΑΣΑ"]).1 = ⟨some .exactPrefix, ["ΑΣΑ"]⟩ ∧
      score "ΑΣ" "ΑΣΑ" = 0 ∧
      ((Matcher.new {}).select "i\u0307" ["İ"]).1 = ⟨some .foldedPrefix, ["İ"]⟩ ∧
      score "i\u0307" "İ" = 0 := by
  decide +kernel

end ShellCompletion.Matching
