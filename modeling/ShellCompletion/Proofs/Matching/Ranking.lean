import Mathlib.Data.List.Infix
import Mathlib.Data.List.Sort
import ShellCompletion.Proofs.Matching.Session

/-!
# What the fuzzy tier selects

The fuzzy tier filters, sorts and cuts. What comes out is described by the places of the list that
are kept, so that equal candidates at different places stay apart.

* **A stable sort** (`pairwise_mergeSort`): sorting by falling keys keeps whatever order the list
  had among entries with equal keys.
* **The best places** (`Ranking`): distinct places, scores that never rise, ties in the order of the
  list, every score at least the threshold and never zero, as many places as fit, and none left out
  that outranks one that is kept. `rank_eq_map_topPlaces` and `ranking_topPlaces` show that the tier
  offers the candidates at such places; `Ranking.unique` shows that there is only one such list.
* **A higher threshold** leaves the front of the ranking (`topPlaces_prefix_of_le`): it takes out
  whatever is below it (`rankedPlaces_of_le`), and that comes last (`filter_prefix_of_pairwise`).
-/

namespace ShellCompletion.Matching

/-! ### Stable sorting by falling keys -/

section stable

variable {α : Type} (key : α → Nat)

/-- The order that puts greater keys first. -/
def fallingLE (a b : α) : Bool :=
  key b ≤ key a

/-- The order by falling keys is transitive. -/
theorem fallingLE_trans (a b c : α) (hab : fallingLE key a b) (hbc : fallingLE key b c) :
    fallingLE key a c := by
  simp only [fallingLE, decide_eq_true_eq] at *
  omega

/-- Of two entries, one may stand before the other. -/
theorem fallingLE_total (a b : α) : fallingLE key a b || fallingLE key b a := by
  simp only [fallingLE, Bool.or_eq_true, decide_eq_true_eq]
  omega

/-- The entries with one key come out of the sort as they went in: they are in order already, so
they are a sublist of the sorted list, and there are no others. -/
theorem filter_key_mergeSort (l : List α) (k : Nat) :
    (l.mergeSort (fallingLE key)).filter (key · = k) = l.filter (key · = k) := by
  have hperm := List.mergeSort_perm l (fallingLE key)
  have hsorted : (l.filter (key · = k)).Pairwise fun a b => fallingLE key a b := by
    refine List.pairwise_of_forall_mem_list fun a ha b hb => ?_
    simp only [List.mem_filter, decide_eq_true_eq] at ha hb
    simp only [fallingLE, decide_eq_true_eq]
    omega
  have hsub : (l.filter (key · = k)).Sublist (l.mergeSort (fallingLE key)) :=
    List.sublist_mergeSort (fallingLE_trans key) (fallingLE_total key) hsorted
      List.filter_sublist
  have hsub' := hsub.filter (key · = k)
  rw [List.filter_filter] at hsub'
  simp only [Bool.and_self] at hsub'
  exact (hsub'.eq_of_length (hperm.filter _).length_eq.symm).symm

/-- **A stable sort by falling keys**: keys never rise, and equal keys keep any order that the list
had. -/
theorem pairwise_mergeSort {R : α → α → Prop} {l : List α} (h : l.Pairwise R) :
    (l.mergeSort (fallingLE key)).Pairwise fun a b =>
      key b < key a ∨ key a = key b ∧ R a b := by
  have hfalling := List.pairwise_mergeSort (fallingLE_trans key) (fallingLE_total key) l
  rw [List.pairwise_iff_forall_sublist] at hfalling ⊢
  intro a b hab
  have hle : key b ≤ key a := by simpa [fallingLE] using hfalling hab
  rcases Nat.lt_or_eq_of_le hle with hlt | heq
  · exact .inl hlt
  · refine .inr ⟨heq.symm, ?_⟩
    have hfilter := hab.filter (key · = key a)
    rw [filter_key_mergeSort] at hfilter
    simp only [List.filter_cons, heq, decide_true, if_true, List.filter_nil] at hfilter
    exact List.pairwise_iff_forall_sublist.mp (h.filter _) hfilter

/-- The keys come out of the sort in the same order, whatever the order of the list was. -/
theorem map_key_mergeSort_of_perm {l l' : List α} (h : l.Perm l') :
    (l.mergeSort (fallingLE key)).map key = (l'.mergeSort (fallingLE key)).map key := by
  have hfalling : ∀ l : List α, ((l.mergeSort (fallingLE key)).map key).Pairwise (· ≥ ·) := by
    intro l
    rw [List.pairwise_map]
    exact (List.pairwise_mergeSort (fallingLE_trans key) (fallingLE_total key) l).imp
      of_decide_eq_true
  have hperm := ((List.mergeSort_perm l (fallingLE key)).trans h).trans
    (List.mergeSort_perm l' (fallingLE key)).symm
  refine (hperm.map key).eq_of_pairwise ?_ (hfalling l) (hfalling l')
  intro a b _ _ hab hba
  exact Nat.le_antisymm hba hab

/-- What meets a condition stands at the beginning of a list in which nothing that meets it comes
behind what does not. -/
theorem filter_prefix_of_pairwise {α : Type} {p : α → Bool} {l : List α}
    (h : l.Pairwise fun a b => p b → p a) : l.filter p <+: l := by
  induction l with
  | nil => exact List.nil_prefix
  | cons a rest ih =>
    obtain ⟨hfirst, hrest⟩ := List.pairwise_cons.mp h
    by_cases ha : p a
    · rw [List.filter_cons_of_pos ha, List.prefix_cons_inj]
      exact ih hrest
    · have hnone : rest.filter p = [] :=
        List.filter_eq_nil_iff.mpr fun b hmem hb => ha (hfirst b hmem hb)
      rw [List.filter_cons_of_neg ha, hnone]
      exact List.nil_prefix

end stable

/-! ### The best places of a list -/

section ranking

variable (tunables : Tunables) (pattern : String) (candidates : List String)

/-- The candidate has a score with which the fuzzy tier may offer it. -/
def Qualifies (candidate : String) : Prop :=
  max 1 tunables.scoreThreshold.toNat ≤ score pattern candidate

instance : DecidablePred (Qualifies tunables pattern) := fun _ =>
  inferInstanceAs (Decidable (_ ≤ _))

/-- The place `i` comes before the place `j`: it has the higher score, or it has the same score and
stands earlier in the list. -/
def Outranks (i j : Fin candidates.length) : Prop :=
  score pattern candidates[j] < score pattern candidates[i] ∨
    score pattern candidates[i] = score pattern candidates[j] ∧ i < j

/-- The places of a list at which the fuzzy tier finds what it offers. -/
structure Ranking (places : List (Fin candidates.length)) : Prop where
  /-- No place is taken twice. -/
  nodup : places.Nodup
  /-- The scores never rise. -/
  falling : places.Pairwise fun i j =>
    score pattern candidates[j] ≤ score pattern candidates[i]
  /-- Equal scores keep the order of the list. -/
  ties : places.Pairwise fun i j =>
    score pattern candidates[i] = score pattern candidates[j] → i < j
  /-- Every score reaches the threshold, and none is zero. -/
  qualifies : ∀ i ∈ places, Qualifies tunables pattern candidates[i]
  /-- All that qualify are taken, as far as there is room. -/
  length_eq : places.length =
    min tunables.maxResults.toNat (candidates.countP (Qualifies tunables pattern ·))
  /-- No place that is left out outranks one that is taken. -/
  best : ∀ i ∈ places, ∀ j, j ∉ places → Qualifies tunables pattern candidates[j] →
    Outranks pattern candidates i j

/-- The places that qualify, in the order of their ranks. -/
def rankedPlaces : List (Fin candidates.length) :=
  ((List.finRange candidates.length).filter
    (Qualifies tunables pattern candidates[·])).mergeSort
      (fallingLE fun i => score pattern candidates[i])

/-- The places that are kept. -/
def topPlaces : List (Fin candidates.length) :=
  (rankedPlaces tunables pattern candidates).take tunables.maxResults.toNat

/-- Each ranked place outranks those behind it. -/
theorem pairwise_rankedPlaces :
    (rankedPlaces tunables pattern candidates).Pairwise (Outranks pattern candidates) :=
  pairwise_mergeSort _ ((List.pairwise_lt_finRange _).filter _)

/-- The ranked places are those of the candidates that qualify. -/
theorem mem_rankedPlaces {i : Fin candidates.length} :
    i ∈ rankedPlaces tunables pattern candidates ↔ Qualifies tunables pattern candidates[i] := by
  simp [rankedPlaces, (List.mergeSort_perm _ _).mem_iff, List.mem_finRange]

/-- There are as many ranked places as candidates that qualify. -/
theorem length_rankedPlaces :
    (rankedPlaces tunables pattern candidates).length =
      candidates.countP (Qualifies tunables pattern ·) := by
  have hcount := congrArg (List.countP (Qualifies tunables pattern ·))
    (List.map_get_finRange candidates)
  rw [← hcount, List.countP_map, List.countP_eq_length_filter, rankedPlaces,
    (List.mergeSort_perm _ _).length_eq]
  rfl

/-- No place is ranked twice. -/
theorem nodup_rankedPlaces : (rankedPlaces tunables pattern candidates).Nodup :=
  (List.mergeSort_perm _ _).nodup_iff.mpr ((List.nodup_finRange _).filter _)

/-- A place that qualifies and is not kept comes after all that are kept. -/
theorem outranks_of_not_mem_topPlaces {i j : Fin candidates.length}
    (hi : i ∈ topPlaces tunables pattern candidates)
    (hj : j ∉ topPlaces tunables pattern candidates)
    (hq : Qualifies tunables pattern candidates[j]) : Outranks pattern candidates i j := by
  have hpairwise := pairwise_rankedPlaces tunables pattern candidates
  rw [← List.take_append_drop tunables.maxResults.toNat (rankedPlaces _ _ _),
    List.pairwise_append] at hpairwise
  have hranked := (mem_rankedPlaces tunables pattern candidates).mpr hq
  rw [← List.take_append_drop tunables.maxResults.toNat (rankedPlaces _ _ _),
    List.mem_append] at hranked
  exact hpairwise.2.2 i hi j (hranked.resolve_left hj)

/-- The first of the ranked places are a ranking. -/
theorem ranking_topPlaces :
    Ranking tunables pattern candidates (topPlaces tunables pattern candidates) where
  nodup := (nodup_rankedPlaces tunables pattern candidates).sublist (List.take_sublist _ _)
  falling := by
    refine ((pairwise_rankedPlaces tunables pattern candidates).sublist
      (List.take_sublist _ _)).imp ?_
    rintro i j (hlt | ⟨heq, -⟩)
    · exact Nat.le_of_lt hlt
    · exact Nat.le_of_eq heq.symm
  ties := by
    refine ((pairwise_rankedPlaces tunables pattern candidates).sublist
      (List.take_sublist _ _)).imp ?_
    rintro i j (hlt | ⟨-, hij⟩) heq
    · omega
    · exact hij
  qualifies := fun i hi =>
    (mem_rankedPlaces tunables pattern candidates).mp (List.mem_of_mem_take hi)
  length_eq := by
    rw [topPlaces, List.length_take, length_rankedPlaces]
  best := fun i hi j hj hq =>
    outranks_of_not_mem_topPlaces tunables pattern candidates hi hj hq

/-- A place as the tier sees it: the score and the candidate. -/
def scoredPlace (i : Fin candidates.length) : Nat × String :=
  (score pattern candidates[i], candidates[i])

/-- Going through the places pairs each candidate with its score. -/
theorem map_scoredPlace_finRange :
    (List.finRange candidates.length).map (scoredPlace pattern candidates) =
      (candidates.map (score pattern)).zip candidates := by
  have hlist := List.map_get_finRange candidates
  have hscores := congrArg (List.map (score pattern)) hlist
  rw [List.map_map] at hscores
  calc (List.finRange candidates.length).map (scoredPlace pattern candidates)
      = ((List.finRange candidates.length).map (score pattern ∘ candidates.get)).zip
          ((List.finRange candidates.length).map candidates.get) := List.zip_map'.symm
    _ = (candidates.map (score pattern)).zip candidates := by rw [hscores, hlist]

/-- What the fuzzy tier offers stands at the best places, in their order: filtering, sorting and
cutting the scored candidates is doing so with their places. -/
theorem rank_eq_map_topPlaces :
    rank tunables ((candidates.map (score pattern)).zip candidates) =
      (topPlaces tunables pattern candidates).map candidates.get := by
  have hqualifies : ∀ i : Fin candidates.length,
      (decide (0 < (scoredPlace pattern candidates i).1) &&
        decide (tunables.scoreThreshold.toNat ≤ (scoredPlace pattern candidates i).1)) =
      decide (Qualifies tunables pattern candidates[i]) := by
    intro i
    rw [← Bool.decide_and, decide_eq_decide]
    simp only [scoredPlace, Qualifies]
    omega
  have hfilter : ((List.finRange candidates.length).map (scoredPlace pattern candidates)).filter
      (fun entry => 0 < entry.1 && tunables.scoreThreshold.toNat ≤ entry.1) =
        ((List.finRange candidates.length).filter
          (Qualifies tunables pattern candidates[·])).map (scoredPlace pattern candidates) := by
    rw [List.filter_map]
    exact congrArg _ (List.filter_congr fun i _ => hqualifies i)
  have hsort := List.map_mergeSort (r := fallingLE fun i => score pattern candidates[i])
    (s := fun a b => b.1 ≤ a.1) (f := scoredPlace pattern candidates)
    (l := (List.finRange candidates.length).filter (Qualifies tunables pattern candidates[·]))
    (fun i _ j _ => rfl)
  unfold rank topPlaces rankedPlaces
  rw [← map_scoredPlace_finRange, hfilter]
  simp only [← hsort, List.map_take, List.map_map]
  rfl

/-! ### The ranking is the only one -/

variable {tunables pattern candidates}

/-- In a ranking each place outranks those behind it. -/
theorem Ranking.pairwise_outranks {places : List (Fin candidates.length)}
    (h : Ranking tunables pattern candidates places) :
    places.Pairwise (Outranks pattern candidates) := by
  refine (h.falling.and h.ties).imp ?_
  rintro i j ⟨hle, hties⟩
  rcases Nat.lt_or_eq_of_le hle with hlt | heq
  · exact .inl hlt
  · exact .inr ⟨heq.symm, hties heq.symm⟩

/-- No two places outrank each other. -/
theorem Outranks.asymm {i j : Fin candidates.length} (h : Outranks pattern candidates i j) :
    ¬ Outranks pattern candidates j i := by
  unfold Outranks at *
  omega

/-- A place that outranks another one has no lower score. -/
theorem Outranks.score_le {i j : Fin candidates.length} (h : Outranks pattern candidates i j) :
    score pattern candidates[j] ≤ score pattern candidates[i] := by
  rcases h with hlt | ⟨heq, -⟩
  · exact Nat.le_of_lt hlt
  · exact Nat.le_of_eq heq.symm

variable {places others : List (Fin candidates.length)}

/-- Two rankings take the same places: if one took a place that the other leaves out, the other
would take one that this leaves out, as they have equally many, and each of the two places would
outrank the other. -/
theorem Ranking.subset (h : Ranking tunables pattern candidates places)
    (h' : Ranking tunables pattern candidates others) : places ⊆ others := by
  intro i hi
  by_contra hnot
  have hother : ∃ j ∈ others, j ∉ places := by
    by_contra hnone
    push Not at hnone
    have hperm := (List.subperm_of_subset h'.nodup hnone).perm_of_length_le
      (by rw [h.length_eq, h'.length_eq])
    exact hnot (hperm.mem_iff.mpr hi)
  obtain ⟨j, hj, hjnot⟩ := hother
  exact (h.best i hi j hjnot (h'.qualifies j hj)).asymm (h'.best j hj i hnot (h.qualifies i hi))

/-- A list has only one ranking. -/
theorem Ranking.unique (h : Ranking tunables pattern candidates places)
    (h' : Ranking tunables pattern candidates others) : places = others := by
  have hperm : places.Perm others :=
    (List.perm_ext_iff_of_nodup h.nodup h'.nodup).mpr fun _ =>
      ⟨fun hi => h.subset h' hi, fun hi => h'.subset h hi⟩
  refine hperm.eq_of_pairwise ?_ h.pairwise_outranks h'.pairwise_outranks
  intro i j _ _ hij hji
  exact absurd hji hij.asymm

/-! ### A higher threshold -/

variable {low high : UInt32}

/-- What qualifies under a threshold qualifies under a lower one. -/
theorem Qualifies.of_le (hle : low ≤ high) {candidate : String}
    (h : Qualifies { tunables with scoreThreshold := high } pattern candidate) :
    Qualifies { tunables with scoreThreshold := low } pattern candidate := by
  obtain ⟨hpositive, hhigh⟩ := Nat.max_le.mp h
  exact Nat.max_le.mpr ⟨hpositive, Nat.le_trans (UInt32.le_iff_toNat_le.mp hle) hhigh⟩

/-- The ranking under the higher of two thresholds is part of the ranking under the lower: the same
places are in both, in the order of the ranks, which leaves no choice. -/
theorem rankedPlaces_of_le (hle : low ≤ high) :
    rankedPlaces { tunables with scoreThreshold := high } pattern candidates =
      (rankedPlaces { tunables with scoreThreshold := low } pattern candidates).filter
        (Qualifies { tunables with scoreThreshold := high } pattern candidates[·]) := by
  have hperm : (rankedPlaces { tunables with scoreThreshold := high } pattern candidates).Perm
      ((rankedPlaces { tunables with scoreThreshold := low } pattern candidates).filter
        (Qualifies { tunables with scoreThreshold := high } pattern candidates[·])) := by
    rw [List.perm_ext_iff_of_nodup (nodup_rankedPlaces _ _ _)
      ((nodup_rankedPlaces _ _ _).filter _)]
    intro i
    rw [List.mem_filter, mem_rankedPlaces, mem_rankedPlaces, decide_eq_true_eq]
    exact ⟨fun hhigh => ⟨hhigh.of_le hle, hhigh⟩, And.right⟩
  refine hperm.eq_of_pairwise ?_ (pairwise_rankedPlaces _ _ _)
    ((pairwise_rankedPlaces _ _ _).filter _)
  intro i j _ _ hij hji
  exact absurd hji hij.asymm

/-- A higher threshold keeps the front of the ranking. -/
theorem topPlaces_prefix_of_le (hle : low ≤ high) :
    topPlaces { tunables with scoreThreshold := high } pattern candidates <+:
      topPlaces { tunables with scoreThreshold := low } pattern candidates := by
  rw [topPlaces, rankedPlaces_of_le hle]
  refine List.IsPrefix.take (filter_prefix_of_pairwise ?_) _
  refine (pairwise_rankedPlaces _ _ _).imp fun hranks hqualifies => ?_
  exact decide_eq_true (Nat.le_trans (of_decide_eq_true hqualifies) hranks.score_le)

end ranking

end ShellCompletion.Matching
