import ShellCompletion.Proofs.Matching.Tiers

/-!
# Which tier decides

Whether a tier has anything to offer depends on nothing but whether some candidate of the list fits
it, and so does which of the tiers decides. That makes two answers comparable: of two lists, or
under two sets of tunables.

* **Offers** (`offerOf`): a tier offers the candidates that fit it (`Fits`), in the order of the
  list (`offerOf_eq_filter`), except that the fuzzy tier sorts them and cuts them off
  (`offerOf_fuzzy`). So it offers something exactly if it finds something (`offerOf_ne_nil_iff`).
* **The tier that decides** (`Decides`): no tier before it finds anything, and it finds something
  unless it is the last. There always is one (`exists_decides`), and what it offers is the answer
  (`Decides.selectionFor_eq`), which is picked from the list (`items_selectionFor_subperm`).
-/

namespace ShellCompletion.Matching

/-! ### Offers -/

/-- What each tier offers when it answers. -/
def offerOf (tunables : Tunables) (pattern : String) (candidates : List String) :
    Tier → List String
  | .guarded | .exactPrefix => exactMatches pattern candidates
  | .foldedPrefix => foldedMatches pattern candidates
  | .fuzzy => fuzzyFor tunables pattern candidates
  | .substring => substringMatches pattern candidates

/-- The candidate is one that the tier may offer. -/
def Fits (tunables : Tunables) (pattern : String) (tier : Tier) (candidate : String) : Prop :=
  match tier with
  | .guarded | .exactPrefix => pattern.toList <+: candidate.toList
  | .foldedPrefix => (Text.lowercase pattern).toList <+: (Text.lowercase candidate).toList
  | .fuzzy => fuzzyApplies tunables pattern = true ∧ 0 < tunables.maxResults.toNat ∧
      Qualifies tunables pattern candidate
  | .substring => (Text.lowercase pattern).toList <:+: (Text.lowercase candidate).toList

instance (tunables : Tunables) (pattern : String) (tier : Tier) :
    DecidablePred (Fits tunables pattern tier) := fun _ =>
  match tier with
  | .guarded | .exactPrefix => inferInstanceAs (Decidable (_ <+: _))
  | .foldedPrefix => inferInstanceAs (Decidable (_ <+: _))
  | .fuzzy => inferInstanceAs (Decidable (_ ∧ _ ∧ _))
  | .substring => inferInstanceAs (Decidable (_ <:+: _))

variable {tunables : Tunables} {pattern : String} {candidates : List String} {tier : Tier}

/-- Only the fuzzy tier looks at the tunables. -/
theorem fits_iff_of_ne_fuzzy (h : tier ≠ .fuzzy) (tunables tunables' : Tunables)
    (candidate : String) :
    Fits tunables pattern tier candidate ↔ Fits tunables' pattern tier candidate := by
  cases tier with
  | guarded => exact Iff.rfl
  | exactPrefix => exact Iff.rfl
  | foldedPrefix => exact Iff.rfl
  | fuzzy => exact absurd rfl h
  | substring => exact Iff.rfl

/-- A tier that does not rank offers the candidates that fit, in their order. -/
theorem offerOf_eq_filter (h : tier ≠ .fuzzy) :
    offerOf tunables pattern candidates tier =
      candidates.filter (Fits tunables pattern tier ·) := by
  cases tier with
  | guarded => exact exactMatches_eq pattern candidates
  | exactPrefix => exact exactMatches_eq pattern candidates
  | foldedPrefix => exact foldedMatches_eq pattern candidates
  | fuzzy => exact absurd rfl h
  | substring => exact substringMatches_eq pattern candidates

/-- The candidates at the best places are the best of those that qualify. -/
theorem map_get_topPlaces (tunables : Tunables) (pattern : String) (candidates : List String) :
    (topPlaces tunables pattern candidates).map candidates.get =
      ((candidates.filter (Qualifies tunables pattern ·)).mergeSort
        (fallingLE (score pattern))).take tunables.maxResults.toNat := by
  have hfilter := List.filter_map (f := candidates.get) (l := List.finRange candidates.length)
    (p := (Qualifies tunables pattern ·))
  rw [List.map_get_finRange] at hfilter
  rw [topPlaces, rankedPlaces, List.map_take, hfilter]
  exact congrArg (List.take _) (List.map_mergeSort fun i _ j _ => rfl)

/-- The fuzzy tier offers the best of the candidates that fit, by falling score. -/
theorem offerOf_fuzzy :
    offerOf tunables pattern candidates .fuzzy =
      ((candidates.filter (Fits tunables pattern .fuzzy ·)).mergeSort
        (fallingLE (score pattern))).take tunables.maxResults.toNat := by
  rw [offerOf, fuzzyFor, rank_eq_map_topPlaces, map_get_topPlaces]
  by_cases happlies : fuzzyApplies tunables pattern = true
  · rw [if_pos happlies]
    rcases Nat.eq_zero_or_pos tunables.maxResults.toNat with hnone | hroom
    · rw [hnone, List.take_zero, List.take_zero]
    · simp only [Fits, happlies, hroom, true_and]
  · simp [Fits, happlies]

/-- Nothing is offered that does not fit, and nothing more often than the list has it. -/
theorem offerOf_subperm :
    (offerOf tunables pattern candidates tier).Subperm
      (candidates.filter (Fits tunables pattern tier ·)) := by
  by_cases hfuzzy : tier = .fuzzy
  · subst hfuzzy
    rw [offerOf_fuzzy]
    exact (List.take_sublist _ _).subperm.trans (List.mergeSort_perm _ _).subperm
  · rw [offerOf_eq_filter hfuzzy]

/-- What is offered is one of the candidates, and fits. -/
theorem fits_of_mem_offerOf {candidate : String}
    (h : candidate ∈ offerOf tunables pattern candidates tier) :
    candidate ∈ candidates ∧ Fits tunables pattern tier candidate := by
  have hmem := offerOf_subperm.subset h
  rwa [List.mem_filter, decide_eq_true_eq] at hmem

/-- No more is offered than there are candidates. -/
theorem length_offerOf_le :
    (offerOf tunables pattern candidates tier).length ≤ candidates.length :=
  Nat.le_trans offerOf_subperm.length_le (List.length_filter_le _ _)

/-- Some candidate of the list fits the tier. -/
def Finds (tunables : Tunables) (pattern : String) (candidates : List String) (tier : Tier) :
    Prop :=
  ∃ candidate ∈ candidates, Fits tunables pattern tier candidate

instance : Decidable (Finds tunables pattern candidates tier) :=
  inferInstanceAs (Decidable (∃ candidate ∈ candidates, _))

/-- A tier offers something exactly if it finds something: the fuzzy tier cuts off all that it finds
only if it may offer nothing at all, and then nothing fits it. -/
theorem offerOf_ne_nil_iff :
    offerOf tunables pattern candidates tier ≠ [] ↔ Finds tunables pattern candidates tier := by
  constructor
  · intro h
    obtain ⟨candidate, hmem⟩ := List.exists_mem_of_ne_nil _ h
    exact ⟨candidate, fits_of_mem_offerOf hmem⟩
  · rintro ⟨candidate, hmem, hfits⟩ hnone
    have hfound : candidate ∈ candidates.filter (Fits tunables pattern tier ·) :=
      List.mem_filter.mpr ⟨hmem, decide_eq_true hfits⟩
    by_cases hfuzzy : tier = .fuzzy
    · subst hfuzzy
      rw [offerOf_fuzzy, List.take_eq_nil_iff] at hnone
      rcases hnone with hcut | hsorted
      · exact Nat.ne_of_gt hfits.2.1 hcut
      · rw [← List.mem_mergeSort, hsorted] at hfound
        exact List.not_mem_nil hfound
    · rw [← offerOf_eq_filter hfuzzy, hnone] at hfound
      exact List.not_mem_nil hfound

/-- An answer bears the name of a tier exactly if this tier gave it and offers something. -/
theorem Selection.tier_ofTier_eq_some_iff {own : Tier} {items : List String} :
    (ofTier own items).tier = some tier ↔ own = tier ∧ items ≠ [] := by
  rw [ofTier]
  split
  next hnone => simp [hnone]
  next hsome => simp [hsome]

/-! ### The tier that decides -/

/-- The tiers that are asked before a tier. The guarded tier is asked alone. -/
def Tier.earlier : Tier → List Tier
  | guarded => []
  | exactPrefix => []
  | foldedPrefix => [exactPrefix]
  | fuzzy => [exactPrefix, foldedPrefix]
  | substring => [exactPrefix, foldedPrefix, fuzzy]

/-- No tier is asked after this one. -/
def Tier.IsLast (tier : Tier) : Prop :=
  tier = guarded ∨ tier = substring

instance (tier : Tier) : Decidable tier.IsLast :=
  inferInstanceAs (Decidable (_ ∨ _))

/-- What the tier offers is the answer. -/
structure Decides (tunables : Tunables) (pattern : String) (candidates : List String)
    (tier : Tier) : Prop where
  /-- The lists that are too long are for the guarded tier. -/
  guarded_iff : tier = .guarded ↔ tunables.maxCandidates.toNat < candidates.length
  /-- No tier before it finds anything. -/
  earlier : ∀ before ∈ tier.earlier, ¬Finds tunables pattern candidates before
  /-- It finds something, unless it is the last one. -/
  finds : Finds tunables pattern candidates tier ∨ tier.IsLast

/-- Some tier decides, whatever the candidates are. -/
theorem exists_decides (tunables : Tunables) (pattern : String) (candidates : List String) :
    ∃ tier, Decides tunables pattern candidates tier := by
  by_cases hlong : tunables.maxCandidates.toNat < candidates.length
  · exact ⟨.guarded, by simp [hlong], by simp [Tier.earlier], .inr (.inl rfl)⟩
  by_cases hexact : Finds tunables pattern candidates .exactPrefix
  · exact ⟨.exactPrefix, by simp [hlong], by simp [Tier.earlier], .inl hexact⟩
  by_cases hfolded : Finds tunables pattern candidates .foldedPrefix
  · exact ⟨.foldedPrefix, by simp [hlong], by simp [Tier.earlier, hexact], .inl hfolded⟩
  by_cases hfuzzy : Finds tunables pattern candidates .fuzzy
  · exact ⟨.fuzzy, by simp [hlong], by simp [Tier.earlier, hexact, hfolded], .inl hfuzzy⟩
  · exact ⟨.substring, by simp [hlong], by simp [Tier.earlier, hexact, hfolded, hfuzzy],
      .inr (.inr rfl)⟩

/-- The answer in terms of the offers. -/
theorem selectionFor_eq_ite (tunables : Tunables) (pattern : String) (candidates : List String) :
    selectionFor tunables pattern candidates =
      let offer := offerOf tunables pattern candidates
      if tunables.maxCandidates.toNat < candidates.length then .ofTier .guarded (offer .guarded)
      else if offer .exactPrefix ≠ [] then .ofTier .exactPrefix (offer .exactPrefix)
      else if offer .foldedPrefix ≠ [] then .ofTier .foldedPrefix (offer .foldedPrefix)
      else if offer .fuzzy ≠ [] then .ofTier .fuzzy (offer .fuzzy)
      else .ofTier .substring (offer .substring) := rfl

namespace Decides

/-- A tier besides the guarded one decides only for lists that are not too long. -/
theorem length_le (h : Decides tunables pattern candidates tier) (htier : tier ≠ .guarded) :
    candidates.length ≤ tunables.maxCandidates.toNat :=
  Nat.not_lt.mp (h.guarded_iff.not.mp htier)

/-- A tier before the one that decides offers nothing. -/
theorem offerOf_earlier (h : Decides tunables pattern candidates tier) (before : Tier)
    (hmem : before ∈ tier.earlier) : ¬offerOf tunables pattern candidates before ≠ [] :=
  offerOf_ne_nil_iff.not.mpr (h.earlier before hmem)

/-- The tier that decides offers something, unless it is the last one. -/
theorem offerOf_ne_nil (h : Decides tunables pattern candidates tier) (hlast : ¬tier.IsLast) :
    offerOf tunables pattern candidates tier ≠ [] :=
  offerOf_ne_nil_iff.mpr (h.finds.resolve_right hlast)

/-- The matcher answers with the offer of the tier that decides. -/
theorem selectionFor_eq (h : Decides tunables pattern candidates tier) :
    selectionFor tunables pattern candidates =
      .ofTier tier (offerOf tunables pattern candidates tier) := by
  have hlong := h.guarded_iff
  have hempty := h.offerOf_earlier
  have hoffers := h.offerOf_ne_nil
  rw [selectionFor_eq_ite]
  cases tier with
  | guarded => exact if_pos (hlong.mp rfl)
  | exactPrefix =>
    rw [if_neg (hlong.not.mp (by decide))]
    exact if_pos (hoffers (by decide))
  | foldedPrefix =>
    rw [if_neg (hlong.not.mp (by decide)), if_neg (hempty .exactPrefix (by decide))]
    exact if_pos (hoffers (by decide))
  | fuzzy =>
    rw [if_neg (hlong.not.mp (by decide)), if_neg (hempty .exactPrefix (by decide)),
      if_neg (hempty .foldedPrefix (by decide))]
    exact if_pos (hoffers (by decide))
  | substring =>
    rw [if_neg (hlong.not.mp (by decide)), if_neg (hempty .exactPrefix (by decide)),
      if_neg (hempty .foldedPrefix (by decide))]
    exact if_neg (hempty .fuzzy (by decide))

/-- The selection names a tier just if this one decides and finds something. -/
theorem tier_eq_some_iff (h : Decides tunables pattern candidates tier) {other : Tier} :
    (selectionFor tunables pattern candidates).tier = some other ↔
      tier = other ∧ Finds tunables pattern candidates tier := by
  rw [h.selectionFor_eq, Selection.tier_ofTier_eq_some_iff, offerOf_ne_nil_iff]

/-- The selection names the tier that decides, unless this is the last one. -/
theorem tier_eq_some (h : Decides tunables pattern candidates tier) (hlast : ¬tier.IsLast) :
    (selectionFor tunables pattern candidates).tier = some tier :=
  h.tier_eq_some_iff.mpr ⟨rfl, h.finds.resolve_right hlast⟩

/-- Where the selection does not name the fuzzy tier, another one decides. -/
theorem ne_fuzzy (h : Decides tunables pattern candidates tier)
    (hother : (selectionFor tunables pattern candidates).tier ≠ some .fuzzy) : tier ≠ .fuzzy := by
  rintro rfl
  exact hother (h.tier_eq_some (by decide))

end Decides

/-- Where the same tiers find something, the same tier decides and gives its name. -/
theorem exists_decides_both {tunables' : Tunables} {others : List String}
    (hfinds : ∀ tier, Finds tunables pattern candidates tier ↔ Finds tunables' pattern others tier)
    (hlong : tunables.maxCandidates.toNat < candidates.length ↔
      tunables'.maxCandidates.toNat < others.length) :
    ∃ tier, Decides tunables pattern candidates tier ∧ Decides tunables' pattern others tier ∧
      (selectionFor tunables pattern candidates).tier =
        (selectionFor tunables' pattern others).tier := by
  obtain ⟨tier, h⟩ := exists_decides tunables pattern candidates
  have h' : Decides tunables' pattern others tier :=
    ⟨h.guarded_iff.trans hlong, fun before hmem => (hfinds before).not.mp (h.earlier before hmem),
      h.finds.imp_left (hfinds tier).mp⟩
  refine ⟨tier, h, h', Option.ext fun own => ?_⟩
  rw [h.tier_eq_some_iff, h'.tier_eq_some_iff, hfinds]

/-- An answer that bears the name of a tier is what this tier offers. -/
theorem items_of_tier (h : (selectionFor tunables pattern candidates).tier = some tier) :
    (selectionFor tunables pattern candidates).items =
      offerOf tunables pattern candidates tier := by
  obtain ⟨own, hown⟩ := exists_decides tunables pattern candidates
  obtain ⟨rfl, -⟩ := hown.tier_eq_some_iff.mp h
  rw [hown.selectionFor_eq]
  rfl

/-- The matcher offers nothing that it is not given, and nothing more often. -/
theorem items_selectionFor_subperm (tunables : Tunables) (pattern : String)
    (candidates : List String) :
    (selectionFor tunables pattern candidates).items.Subperm candidates := by
  obtain ⟨tier, htier⟩ := exists_decides tunables pattern candidates
  rw [htier.selectionFor_eq]
  exact offerOf_subperm.trans List.filter_sublist.subperm

/-- If the fuzzy tier finds something in a list that is not too long, then it answers or a tier
before it. -/
theorem exists_tier_of_finds_fuzzy (hshort : candidates.length ≤ tunables.maxCandidates.toNat)
    (hfinds : Finds tunables pattern candidates .fuzzy) :
    ∃ tier, (selectionFor tunables pattern candidates).tier = some tier ∧ ¬tier.IsLast := by
  obtain ⟨tier, h⟩ := exists_decides tunables pattern candidates
  have hlast : ¬tier.IsLast := by
    rintro (rfl | rfl)
    · exact Nat.not_lt.mpr hshort (h.guarded_iff.mp rfl)
    · exact h.earlier .fuzzy (by decide) hfinds
  exact ⟨tier, h.tier_eq_some hlast, hlast⟩

end ShellCompletion.Matching
