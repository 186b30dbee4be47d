import ShellCompletion.Proofs.Matching.Offers

/-!
# Answers compared

Three ways in which two answers of the matcher hang together. In each of them the tier that decides
is found first; what it offers is compared then.

* **Matched again** (`filter_idempotent`): what was offered is offered again as it is. The items all
  fit the tier that offered them (`offerOf_offerOf`), and it decides again (`Decides.again`) unless
  it is the guarded one, whose offer may be short enough for the other tiers
  (`items_selectionFor_of_begin`).
* **Stricter tunables** (`stricter_keeps_front`): a higher threshold and a smaller number of results
  take something off the end of what the fuzzy tier offers (`offerOf_fuzzy_prefix_of_le`,
  `offerOf_fuzzy_maxResults`), and make no difference to the others.
* **Another order of the list** (`select_perm`): the same candidates fit, so the same tier decides.
-/

namespace ShellCompletion.Matching

variable {tunables : Tunables} {pattern : String} {candidates others : List String} {tier : Tier}

/-! ### Matched again -/

/-- A tier offers all of its own offer, in the same order. -/
theorem offerOf_offerOf :
    offerOf tunables pattern (offerOf tunables pattern candidates tier) tier =
      offerOf tunables pattern candidates tier := by
  have hfit : (offerOf tunables pattern candidates tier).filter (Fits tunables pattern tier ·) =
      offerOf tunables pattern candidates tier :=
    List.filter_eq_self.mpr fun _ hmem => decide_eq_true (fits_of_mem_offerOf hmem).2
  by_cases hfuzzy : tier = .fuzzy
  · subst hfuzzy
    -- what has been sorted and cut off is sorted and short enough
    have hsorted : (offerOf tunables pattern candidates .fuzzy).Pairwise
        (fallingLE (score pattern) · ·) := by
      rw [offerOf_fuzzy]
      exact (List.pairwise_mergeSort (fallingLE_trans _) (fallingLE_total _) _).sublist
        (List.take_sublist _ _)
    have hshort : (offerOf tunables pattern candidates .fuzzy).length ≤
        tunables.maxResults.toNat := by
      rw [offerOf_fuzzy]
      exact List.length_take_le _ _
    rw [offerOf_fuzzy, hfit, List.mergeSort_of_pairwise hsorted, List.take_of_length_le hshort]
  · rw [offerOf_eq_filter hfuzzy, hfit]

/-- A tier that decides about a list which is not too long also decides about its own offer. -/
theorem Decides.again (h : Decides tunables pattern candidates tier) (htier : tier ≠ .guarded) :
    Decides tunables pattern (offerOf tunables pattern candidates tier) tier where
  guarded_iff := by
    refine iff_of_false htier (Nat.not_lt.mpr ?_)
    exact Nat.le_trans length_offerOf_le (h.length_le htier)
  earlier := by
    rintro before hbefore ⟨candidate, hmem, hfits⟩
    exact h.earlier before hbefore ⟨candidate, (fits_of_mem_offerOf hmem).1, hfits⟩
  finds := by
    refine h.finds.imp_left fun hfinds => ?_
    rw [← offerOf_ne_nil_iff, offerOf_offerOf]
    exact offerOf_ne_nil_iff.mpr hfinds

/-- If all candidates begin with the pattern, they are what is offered, whatever their number. -/
theorem items_selectionFor_of_begin (h : ∀ c ∈ candidates, pattern.toList <+: c.toList) :
    (selectionFor tunables pattern candidates).items = candidates := by
  have hall : exactMatches pattern candidates = candidates := by
    rw [exactMatches_eq, List.filter_eq_self]
    exact fun c hmem => decide_eq_true (h c hmem)
  obtain ⟨tier, htier⟩ := exists_decides tunables pattern candidates
  rw [htier.selectionFor_eq]
  change offerOf tunables pattern candidates tier = candidates
  by_cases hnil : candidates = []
  · subst hnil
    exact List.length_eq_zero_iff.mp (Nat.le_zero.mp length_offerOf_le)
  · obtain ⟨c, hmem⟩ := List.exists_mem_of_ne_nil candidates hnil
    have hfinds : Finds tunables pattern candidates .exactPrefix := ⟨c, hmem, h c hmem⟩
    cases tier with
    | guarded => exact hall
    | exactPrefix => exact hall
    | foldedPrefix => exact absurd hfinds (htier.earlier .exactPrefix (by decide))
    | fuzzy => exact absurd hfinds (htier.earlier .exactPrefix (by decide))
    | substring => exact absurd hfinds (htier.earlier .exactPrefix (by decide))

/-- Selecting from what has been selected changes nothing. -/
theorem items_selectionFor_items :
    (selectionFor tunables pattern (selectionFor tunables pattern candidates).items).items =
      (selectionFor tunables pattern candidates).items := by
  obtain ⟨tier, htier⟩ := exists_decides tunables pattern candidates
  rw [htier.selectionFor_eq]
  change (selectionFor tunables pattern (offerOf tunables pattern candidates tier)).items =
    offerOf tunables pattern candidates tier
  by_cases hguarded : tier = .guarded
  · subst hguarded
    exact items_selectionFor_of_begin fun _ hmem => (fits_of_mem_offerOf hmem).2
  · rw [(htier.again hguarded).selectionFor_eq]
    exact offerOf_offerOf

/-- **Matched again.** After any session, what is offered of a list is offered again, all of it and
in the same order, when the matcher is given it as a list, at once or after further calls. -/
theorem filter_idempotent (tunables : Tunables) (history later : List Call)
    (pattern : String) (candidates : List String) :
    let first := ((Matcher.new tunables).after history).filter pattern candidates
    ((first.2.after later).filter pattern first.1).1 = first.1 := by
  intro first
  have hfirst := Matcher.transparent_filter (Matcher.honest_after tunables history) pattern
    candidates
  have hlater := Matcher.transparent_session hfirst.honest later
  have hsecond := Matcher.transparent_filter hlater.honest pattern first.1
  have hitems : first.1 = (selectionFor tunables pattern candidates).items := by
    rw [← Matcher.tunables_after tunables history]
    exact hfirst.fst_eq
  have htunables : (first.2.after later).tunables = tunables :=
    (hlater.tunables_eq.trans hfirst.tunables_eq).trans (Matcher.tunables_after tunables history)
  calc ((first.2.after later).filter pattern first.1).1
      = (selectionFor (first.2.after later).tunables pattern first.1).items := hsecond.fst_eq
    _ = (selectionFor tunables pattern first.1).items := by rw [htunables]
    _ = first.1 := by
      rw [hitems]
      exact items_selectionFor_items

/-! ### Stricter tunables -/

section threshold

variable {low high : UInt32}

/-- The fuzzy tier offers less under a higher threshold, and what it still offers comes first under
the lower one too. -/
theorem offerOf_fuzzy_prefix_of_le (hle : low ≤ high) :
    offerOf { tunables with scoreThreshold := high } pattern candidates .fuzzy <+:
      offerOf { tunables with scoreThreshold := low } pattern candidates .fuzzy := by
  rw [offerOf, offerOf, fuzzyFor_eq, fuzzyFor_eq]
  split
  · exact (topPlaces_prefix_of_le hle).map _
  · exact List.prefix_rfl

/-- If the fuzzy tier decides under a threshold, it decides under a lower one. -/
theorem Decides.fuzzy_of_le (hle : low ≤ high)
    (h : Decides { tunables with scoreThreshold := high } pattern candidates .fuzzy) :
    Decides { tunables with scoreThreshold := low } pattern candidates .fuzzy where
  guarded_iff := h.guarded_iff
  earlier := by
    rintro before hbefore ⟨candidate, hmem, hfits⟩
    have htier : before ≠ .fuzzy := by
      rintro rfl
      exact absurd hbefore (by decide)
    exact h.earlier before hbefore ⟨candidate, hmem, (fits_iff_of_ne_fuzzy htier _ _ _).mp hfits⟩
  finds := by
    refine h.finds.imp_left ?_
    rintro ⟨candidate, hmem, happlies, hroom, hqualifies⟩
    exact ⟨candidate, hmem, happlies, hroom, hqualifies.of_le hle⟩

/-- What the fuzzy tier selects under a higher threshold is the front of what it selects under a
lower one. -/
theorem selectionFor_threshold (hle : low ≤ high)
    (hstrict : (selectionFor { tunables with scoreThreshold := high } pattern candidates).tier =
      some .fuzzy) :
    (selectionFor { tunables with scoreThreshold := low } pattern candidates).tier = some .fuzzy ∧
      (selectionFor { tunables with scoreThreshold := high } pattern candidates).items <+:
        (selectionFor { tunables with scoreThreshold := low } pattern candidates).items := by
  obtain ⟨tier, h⟩ :=
    exists_decides { tunables with scoreThreshold := high } pattern candidates
  obtain ⟨rfl, -⟩ := h.tier_eq_some_iff.mp hstrict
  have hlow := h.fuzzy_of_le hle
  have hlax := hlow.tier_eq_some (by decide)
  refine ⟨hlax, ?_⟩
  rw [items_of_tier hstrict, items_of_tier hlax]
  exact offerOf_fuzzy_prefix_of_le hle

end threshold

section maxResults

variable {few many : UInt64}

/-- As long as anything may be offered, the number of results says nothing about what fits. -/
theorem fits_maxResults_iff (hfew : 1 ≤ few) (hle : few ≤ many) (candidate : String) :
    Fits { tunables with maxResults := few } pattern tier candidate ↔
      Fits { tunables with maxResults := many } pattern tier candidate := by
  have hone := UInt64.le_iff_toNat_le.mp hfew
  have htwo := UInt64.le_iff_toNat_le.mp (UInt64.le_trans hfew hle)
  by_cases htier : tier = .fuzzy
  · subst htier
    exact and_congr_right fun _ => and_congr_left fun _ => iff_of_true hone htwo
  · exact fits_iff_of_ne_fuzzy htier _ _ candidate

/-- The number of results does not matter for what a tier finds. -/
theorem finds_maxResults_iff (hfew : 1 ≤ few) (hle : few ≤ many) :
    Finds { tunables with maxResults := few } pattern candidates tier ↔
      Finds { tunables with maxResults := many } pattern candidates tier :=
  exists_congr fun candidate => and_congr_right fun _ => fits_maxResults_iff hfew hle candidate

/-- The first of many results are the few. -/
theorem offerOf_fuzzy_maxResults (hfew : 1 ≤ few) (hle : few ≤ many) :
    offerOf { tunables with maxResults := few } pattern candidates .fuzzy =
      (offerOf { tunables with maxResults := many } pattern candidates .fuzzy).take few.toNat := by
  have hfits : ∀ c ∈ candidates,
      decide (Fits { tunables with maxResults := few } pattern .fuzzy c) =
        decide (Fits { tunables with maxResults := many } pattern .fuzzy c) :=
    fun c _ => decide_eq_decide.mpr (fits_maxResults_iff hfew hle c)
  rw [offerOf_fuzzy, offerOf_fuzzy, List.take_take,
    Nat.min_eq_left (UInt64.le_iff_toNat_le.mp hle), List.filter_congr hfits]

/-- A smaller number of results changes neither the tier nor what tiers besides the fuzzy one
select, and cuts the fuzzy results off. -/
theorem selectionFor_maxResults (hfew : 1 ≤ few) (hle : few ≤ many) :
    let short := selectionFor { tunables with maxResults := few } pattern candidates
    let long := selectionFor { tunables with maxResults := many } pattern candidates
    short.tier = long.tier ∧ (long.tier ≠ some .fuzzy → short.items = long.items) ∧
      (long.tier = some .fuzzy → short.items = long.items.take few.toNat) := by
  dsimp only
  have hfinds : ∀ tier, Finds { tunables with maxResults := few } pattern candidates tier ↔
      Finds { tunables with maxResults := many } pattern candidates tier :=
    fun _ => finds_maxResults_iff hfew hle
  obtain ⟨tier, hshort, hlong, htier⟩ := exists_decides_both hfinds Iff.rfl
  refine ⟨htier, ?_, ?_⟩
  · intro hother
    have hne := hlong.ne_fuzzy hother
    rw [hshort.selectionFor_eq, hlong.selectionFor_eq, offerOf_eq_filter hne,
      offerOf_eq_filter hne]
    exact List.filter_congr fun c _ => decide_eq_decide.mpr (fits_maxResults_iff hfew hle c)
  · intro hfuzzy
    rw [items_of_tier hfuzzy, items_of_tier (htier.trans hfuzzy)]
    exact offerOf_fuzzy_maxResults hfew hle

end maxResults

/-- **Stricter tunables.** After any sessions: what the fuzzy tier offers under the higher of two
thresholds is the beginning of what it offers under the lower. Of two numbers of results, none of
them zero, both leave the answer to the same tier; if this is the fuzzy tier, the smaller number
takes that many from the front, and else it makes no difference. -/
theorem stricter_keeps_front (tunables : Tunables) (history history' : List Call)
    (pattern : String) (candidates : List String) :
    (∀ low high : UInt32, low ≤ high →
      let lax := (((Matcher.new { tunables with scoreThreshold := low }).after history).select
        pattern candidates).1
      let strict := (((Matcher.new { tunables with scoreThreshold := high }).after history').select
        pattern candidates).1
      strict.tier = some .fuzzy → lax.tier = some .fuzzy ∧ strict.items <+: lax.items) ∧
    ∀ few many : UInt64, 1 ≤ few → few ≤ many →
      let short := (((Matcher.new { tunables with maxResults := few }).after history).select
        pattern candidates).1
      let long := (((Matcher.new { tunables with maxResults := many }).after history').select
        pattern candidates).1
      short.tier = long.tier ∧ (long.tier ≠ some .fuzzy → short.items = long.items) ∧
        (long.tier = some .fuzzy → short.items = long.items.take few.toNat) := by
  simp only [Matcher.select_after]
  exact ⟨fun low high => selectionFor_threshold, fun few many => selectionFor_maxResults⟩

/-- Of two candidates with different scores, the better one stays. -/
theorem stricter_keeps_front_better :
    let history : List Call := [.score "sr" "restart"]
    let candidates := ["restart", "stop", "start"]
    let lax := (((Matcher.new { scoreThreshold := 25 }).after history).select "sr" candidates).1
    let strict := (((Matcher.new { scoreThreshold := 80 }).after []).select "sr" candidates).1
    let short := (((Matcher.new { maxResults := 1 }).after history).select "sr" candidates).1
    let long := (((Matcher.new { maxResults := 2 }).after []).select "sr" candidates).1
    ((25 : UInt32) ≤ 80 ∧ strict = ⟨some .fuzzy, ["start"]⟩ ∧
        lax.tier = some .fuzzy ∧ strict.items <+: lax.items) ∧
      ((1 : UInt64) ≤ 1 ∧ (1 : UInt64) ≤ 2 ∧ long.tier = some .fuzzy ∧
        short.tier = long.tier ∧ short.items = long.items.take 1) := by
  intro history candidates lax strict short long
  have hstrict : strict = ⟨some .fuzzy, ["start"]⟩ :=
    (Matcher.select_after _ _ _ _).trans (by decide +kernel)
  have hdecides : Decides { maxResults := 2 } "sr" candidates .fuzzy :=
    ⟨by decide, by decide +kernel, .inl (by decide +kernel)⟩
  have hlong : long.tier = some .fuzzy := by
    rw [← hdecides.tier_eq_some (by decide)]
    exact congrArg Selection.tier (Matcher.select_after _ _ _ _)
  obtain ⟨hthreshold, hresults⟩ := stricter_keeps_front {} history [] "sr" candidates
  have hfront := hthreshold 25 80 (by decide) (congrArg Selection.tier hstrict)
  obtain ⟨htier, -, hfew⟩ := hresults 1 2 (by decide) (by decide)
  exact ⟨⟨by decide, hstrict, hfront⟩, by decide, by decide, hlong, htier, hfew hlong⟩

/-! ### Another order of the list -/

section order

variable (h : candidates.Perm others)

include h

/-- The order of the candidates does not matter for what a tier finds. -/
theorem finds_iff_of_perm :
    Finds tunables pattern candidates tier ↔ Finds tunables pattern others tier :=
  exists_congr fun _ => and_congr_left fun _ => h.mem_iff

/-- A tier that does not rank offers the same candidates in another order. -/
theorem offerOf_perm (htier : tier ≠ .fuzzy) :
    (offerOf tunables pattern candidates tier).Perm (offerOf tunables pattern others tier) := by
  rw [offerOf_eq_filter htier, offerOf_eq_filter htier]
  exact h.filter _

/-- The scores that are cut off are the same, though the candidates may differ. -/
theorem map_score_offerOf_fuzzy :
    (offerOf tunables pattern candidates .fuzzy).map (score pattern) =
      (offerOf tunables pattern others .fuzzy).map (score pattern) := by
  rw [offerOf_fuzzy, offerOf_fuzzy, List.map_take, List.map_take,
    map_key_mergeSort_of_perm (score pattern) (h.filter _)]

end order

/-- **Another order of the list.** After any sessions, the same tier answers for a list in whatever
order it comes. The fuzzy tier then offers candidates with the same scores, one by one; all other
tiers offer the same candidates as often as before. -/
theorem select_perm (h : candidates.Perm others) (tunables : Tunables)
    (history history' : List Call) (pattern : String) :
    let one := (((Matcher.new tunables).after history).select pattern candidates).1
    let other := (((Matcher.new tunables).after history').select pattern others).1
    one.tier = other.tier ∧ (one.tier ≠ some .fuzzy → one.items.Perm other.items) ∧
      (one.tier = some .fuzzy →
        one.items.map (score pattern) = other.items.map (score pattern)) := by
  simp only [Matcher.select_after]
  obtain ⟨tier, hone, hother, htier⟩ := exists_decides_both
    (fun _ => finds_iff_of_perm h) (by rw [h.length_eq])
  refine ⟨htier, ?_, ?_⟩
  · intro hne
    rw [hone.selectionFor_eq, hother.selectionFor_eq]
    exact offerOf_perm h (hone.ne_fuzzy hne)
  · intro hfuzzy
    rw [items_of_tier hfuzzy, items_of_tier (htier ▸ hfuzzy)]
    exact map_score_offerOf_fuzzy h

/-- A list and the same list backwards, for a pattern with which two of the candidates begin and for
one that only the fuzzy tier finds. -/
theorem select_perm_reversed :
    let history : List Call := [.score "sr" "start"]
    let candidates := ["start", "smart", "stop"]
    let others := ["stop", "smart", "start"]
    let starts := (((Matcher.new { maxResults := 1 }).after history).select "st" candidates).1
    let starts' := (((Matcher.new { maxResults := 1 }).after []).select "st" others).1
    let best := (((Matcher.new { maxResults := 1 }).after history).select "sr" candidates).1
    let best' := (((Matcher.new { maxResults := 1 }).after []).select "sr" others).1
    candidates.Perm others ∧
      (starts.tier ≠ some .fuzzy ∧ starts.tier = starts'.tier ∧
        starts.items.Perm starts'.items) ∧
      best.tier = some .fuzzy ∧ best.tier = best'.tier ∧
        best.items.map (score "sr") = best'.items.map (score "sr") := by
  intro history candidates others starts starts' best best'
  have hperm : candidates.Perm others := by decide
  have hstarts : starts.tier ≠ some .fuzzy := by
    have hexact : starts = ⟨some .exactPrefix, ["start", "stop"]⟩ :=
      (Matcher.select_after _ _ _ _).trans (by decide +kernel)
    rw [hexact]
    decide
  have hdecides : Decides { maxResults := 1 } "sr" candidates .fuzzy :=
    ⟨by decide, by decide +kernel, .inl (by decide +kernel)⟩
  have hbest : best.tier = some .fuzzy := by
    rw [← hdecides.tier_eq_some (by decide)]
    exact congrArg Selection.tier (Matcher.select_after _ _ _ _)
  obtain ⟨hstartsTier, hitems, -⟩ := select_perm hperm { maxResults := 1 } history [] "st"
  obtain ⟨hbestTier, -, hscores⟩ := select_perm hperm { maxResults := 1 } history [] "sr"
  exact ⟨hperm, ⟨hstarts, hstartsTier, hitems hstarts⟩, hbest, hbestTier, hscores hbest⟩

end ShellCompletion.Matching
