import Mathlib.Data.List.Forall2
import Mathlib.Order.Bounds.Basic
import Mathlib.Order.MinMax
import ShellCompletion.Proofs.Matching.FullScore

/-!
# What a score counts

The search for the characters of a pattern takes each at the first place behind the one before it
and gives up at the first that is not there. This module says what comes of it without the search:
the longest beginning of the pattern that can be found in the candidate at all, at places none of
which could be earlier.

* **Places that spell a text** (`IsLeftmost`): `isLeftmost_leftmost`, by induction over the
  candidate; a character of it is either taken (`IsLeftmost.take`) or passed over
  (`IsLeftmost.skip`).
* **The longest part** (`IsLongestPart`): `isLongestPart_foundPart`.
* **The longest block** of consecutive places (`HasBlock`): a block lies on one side of a number
  that is left out (`setOf_hasBlock_append`), so `isGreatest_longestRun`.

Main statement: `score_eq_iff_scoredAs`, the formula of the score.
-/

namespace ShellCompletion.Matching

/-! ### Places that spell a text -/

/-- The places grow, and the characters that stand there spell `part`. -/
structure Spells (part offered : List Char) (places : List Nat) : Prop where
  /-- They grow. -/
  grow : places.Pairwise (· < ·)
  /-- They hold the characters. -/
  hold : places.map (offered[·]?) = part.map some

/-- The places spell `part`, and each is the earliest that it has in any such list. -/
structure IsLeftmost (part offered : List Char) (places : List Nat) : Prop extends
    Spells part offered places where
  /-- No other places come earlier. -/
  least : ∀ others, Spells part offered others → List.Forall₂ (· ≤ ·) places others

variable {c : Char} {part wanted offered : List Char} {places : List Nat}

/-- The empty part is spelled by no places at all, and only so. -/
theorem spells_nil_iff : Spells [] offered places ↔ places = [] := by
  constructor
  · intro h
    simpa using h.hold
  · rintro rfl
    exact ⟨.nil, rfl⟩

/-- A character before all others moves the places by one. -/
theorem Spells.skip (h : Spells part offered places) (c : Char) :
    Spells part (c :: offered) (places.map (· + 1)) := by
  constructor
  · rw [List.pairwise_map]
    exact h.grow.imp Nat.succ_lt_succ
  · rw [List.map_map, ← h.hold]
    exact List.map_congr_left fun place _ => List.getElem?_cons_succ

/-- A character before both texts is spelled by the first place. -/
theorem Spells.take (h : Spells part offered places) (c : Char) :
    Spells (c :: part) (c :: offered) (0 :: places.map (· + 1)) := by
  have hskip := h.skip c
  constructor
  · rw [List.pairwise_cons]
    refine ⟨?_, hskip.grow⟩
    simp
  · rw [List.map_cons, hskip.hold]
    rfl

/-- Places behind the first character are places in the rest. -/
theorem Spells.exists_of_zero_not_mem (h : Spells part (c :: offered) places) (h0 : 0 ∉ places) :
    ∃ before, places = before.map (· + 1) ∧ Spells part offered before := by
  have hback : places = (places.map (· - 1)).map (· + 1) := by
    rw [List.map_map]
    conv_lhs => rw [← List.map_id places]
    apply List.map_congr_left
    intro place hmem
    have hpos : place ≠ 0 := fun heq => h0 (heq ▸ hmem)
    show place = place - 1 + 1
    omega
  refine ⟨places.map (· - 1), hback, ?_, ?_⟩
  · have hgrow := h.grow
    rw [hback, List.pairwise_map] at hgrow
    exact hgrow.imp Nat.lt_of_succ_lt_succ
  · have hhold := h.hold
    rw [hback, List.map_map] at hhold
    rw [← hhold]
    exact List.map_congr_left fun place _ => List.getElem?_cons_succ.symm

/-- Behind the place of the first character come the places of the others. -/
theorem Spells.tail {place : Nat} (h : Spells (c :: part) offered (place :: places)) :
    Spells part offered places ∧ 0 ∉ places := by
  obtain ⟨hbehind, hgrow⟩ := List.pairwise_cons.mp h.grow
  refine ⟨⟨hgrow, (List.cons.inj h.hold).2⟩, ?_⟩
  intro hmem
  exact Nat.not_lt_zero place (hbehind 0 hmem)

/-- The first character is taken if it is the one that is wanted. -/
theorem IsLeftmost.take (h : IsLeftmost part offered places) (c : Char) :
    IsLeftmost (c :: part) (c :: offered) (0 :: places.map (· + 1)) := by
  refine ⟨h.toSpells.take c, ?_⟩
  intro others hothers
  cases others with
  | nil => exact absurd hothers.hold (by simp)
  | cons place others =>
    obtain ⟨htail, h0⟩ := hothers.tail
    obtain ⟨before, rfl, hbefore⟩ := htail.exists_of_zero_not_mem h0
    refine .cons (Nat.zero_le place) ?_
    rw [List.forall₂_map_left_iff, List.forall₂_map_right_iff]
    exact (h.least before hbefore).imp fun _ _ hle => Nat.succ_le_succ hle

/-- Otherwise it is passed over. -/
theorem IsLeftmost.skip (h : IsLeftmost part offered places) (hc : part.head? ≠ some c) :
    IsLeftmost part (c :: offered) (places.map (· + 1)) := by
  refine ⟨h.toSpells.skip c, ?_⟩
  intro others hothers
  have h0 : 0 ∉ others := by
    cases part with
    | nil =>
      rw [spells_nil_iff.mp hothers]
      exact List.not_mem_nil
    | cons w part =>
      cases others with
      | nil => exact List.not_mem_nil
      | cons place others =>
        rw [List.mem_cons, not_or]
        refine ⟨?_, hothers.tail.2⟩
        rintro rfl
        exact hc (List.cons.inj hothers.hold).1.symm
  obtain ⟨before, rfl, hbefore⟩ := hothers.exists_of_zero_not_mem h0
  rw [List.forall₂_map_left_iff, List.forall₂_map_right_iff]
  exact (h.least before hbefore).imp fun _ _ hle => Nat.succ_le_succ hle

/-- There is only one leftmost spelling. -/
theorem IsLeftmost.unique {others : List Nat} (h : IsLeftmost part offered places)
    (h' : IsLeftmost part offered others) : places = others := by
  have hle := h.least others h'.toSpells
  have hge := h'.least places h.toSpells
  clear h h'
  induction hle with
  | nil => rfl
  | cons hfirst _ ih =>
    obtain ⟨hback, hrest⟩ := List.forall₂_cons.mp hge
    rw [Nat.le_antisymm hfirst hback, ih hrest]

/-! ### The search -/

/-- The search gives the same places from wherever the count begins. -/
theorem leftmost_succ (wanted : List Char) (place : Nat) (offered : List Char) :
    leftmost wanted (place + 1) offered = (leftmost wanted place offered).map (· + 1) := by
  induction offered generalizing wanted place with
  | nil => rfl
  | cons c rest ih =>
    cases wanted with
    | nil => rfl
    | cons w ws =>
      simp only [leftmost]
      split
      · rw [List.map_cons, ih]
      · rw [ih]

/-- The wanted character is found at once, and the others are looked for behind it. -/
theorem leftmost_cons_of_eq (ws rest : List Char) (c : Char) :
    leftmost (c :: ws) 0 (c :: rest) = 0 :: (leftmost ws 0 rest).map (· + 1) := by
  rw [leftmost, if_pos rfl, leftmost_succ]

/-- Another character is passed over. -/
theorem leftmost_cons_of_ne {w : Char} (ws rest : List Char) (hc : c ≠ w) :
    leftmost (w :: ws) 0 (c :: rest) = (leftmost (w :: ws) 0 rest).map (· + 1) := by
  rw [leftmost, if_neg hc, leftmost_succ]

/-- The beginning of `wanted` that the search finds. -/
def foundPart (wanted offered : List Char) : List Char :=
  wanted.take (leftmost wanted 0 offered).length

/-- The wanted character is found at once. -/
theorem foundPart_cons_of_eq (ws rest : List Char) (c : Char) :
    foundPart (c :: ws) (c :: rest) = c :: foundPart ws rest := by
  rw [foundPart, leftmost_cons_of_eq, List.length_cons, List.length_map, List.take_succ_cons,
    foundPart]

/-- Nothing is found at another character. -/
theorem foundPart_cons_of_ne {w : Char} (ws rest : List Char) (hc : c ≠ w) :
    foundPart (w :: ws) (c :: rest) = foundPart (w :: ws) rest := by
  rw [foundPart, leftmost_cons_of_ne ws rest hc, List.length_map, foundPart]

/-- Each character that is found has a place of its own. -/
theorem length_foundPart (wanted offered : List Char) :
    (foundPart wanted offered).length = (leftmost wanted 0 offered).length := by
  rw [foundPart, List.length_take]
  exact Nat.min_eq_left (length_leftmost_le wanted 0 offered)

/-- What is found is a beginning of what is wanted. -/
theorem foundPart_opens (wanted offered : List Char) : foundPart wanted offered <+: wanted :=
  List.take_prefix _ wanted

/-- What the search finds, it finds as early as can be. -/
theorem isLeftmost_leftmost (wanted offered : List Char) :
    IsLeftmost (foundPart wanted offered) offered (leftmost wanted 0 offered) := by
  induction offered generalizing wanted with
  | nil =>
    refine ⟨spells_nil_iff.mpr rfl, ?_⟩
    intro others hothers
    rw [spells_nil_iff.mp hothers]
    exact .nil
  | cons c rest ih =>
    cases wanted with
    | nil =>
      refine ⟨spells_nil_iff.mpr rfl, ?_⟩
      intro others hothers
      rw [spells_nil_iff.mp hothers]
      exact .nil
    | cons w ws =>
      by_cases hc : c = w
      · subst hc
        rw [foundPart_cons_of_eq, leftmost_cons_of_eq]
        exact (ih ws).take c
      · rw [foundPart_cons_of_ne ws rest hc, leftmost_cons_of_ne ws rest hc]
        refine (ih (w :: ws)).skip ?_
        -- the part is empty or begins as the pattern does
        intro hhead
        obtain ⟨tail, htail⟩ := List.head?_eq_some_iff.mp hhead
        have hopening := foundPart_opens (w :: ws) rest
        rw [htail, List.cons_prefix_cons] at hopening
        exact hc hopening.1

/-! ### The longest part -/

/-- A beginning of `wanted` that occurs in `offered` with other characters in between, and none that
does so is longer. -/
structure IsLongestPart (wanted offered part : List Char) : Prop where
  /-- It is a beginning. -/
  opens : part <+: wanted
  /-- It occurs. -/
  occurs : part.Sublist offered
  /-- None is longer. -/
  longest : ∀ other, other <+: wanted → other.Sublist offered → other.length ≤ part.length

/-- There is only one longest part. -/
theorem IsLongestPart.unique {other : List Char} (h : IsLongestPart wanted offered part)
    (h' : IsLongestPart wanted offered other) : part = other := by
  have hle := h'.longest part h.opens h.occurs
  have hge := h.longest other h'.opens h'.occurs
  exact (List.prefix_of_prefix_length_le h.opens h'.opens hle).eq_of_length
    (Nat.le_antisymm hle hge)

/-- What is found is there in its order. -/
theorem foundPart_sublist (wanted offered : List Char) :
    (foundPart wanted offered).Sublist offered := by
  induction offered generalizing wanted with
  | nil => exact List.nil_sublist _
  | cons c rest ih =>
    cases wanted with
    | nil => exact List.nil_sublist _
    | cons w ws =>
      by_cases hc : c = w
      · subst hc
        rw [foundPart_cons_of_eq]
        exact (ih ws).cons_cons c
      · rw [foundPart_cons_of_ne ws rest hc]
        exact (ih (w :: ws)).cons c

/-- To take a character as early as possible never costs a later one. -/
theorem length_le_foundPart (hopens : part <+: wanted) (hoccurs : part.Sublist offered) :
    part.length ≤ (foundPart wanted offered).length := by
  induction offered generalizing wanted part with
  | nil =>
    rw [List.sublist_nil.mp hoccurs]
    exact Nat.zero_le _
  | cons c rest ih =>
    cases part with
    | nil => exact Nat.zero_le _
    | cons w part =>
      cases wanted with
      | nil => exact absurd hopens (by simp)
      | cons w' ws =>
        obtain ⟨rfl, hopening⟩ := List.cons_prefix_cons.mp hopens
        -- if `c` is wanted, to take it at once is never worse than to wait
        by_cases hc : c = w
        · subst hc
          rw [foundPart_cons_of_eq, List.length_cons, List.length_cons]
          exact Nat.succ_le_succ (ih hopening (List.cons_sublist_cons.mp hoccurs))
        · rw [foundPart_cons_of_ne ws rest hc]
          cases hoccurs with
          | cons _ hrest => exact ih hopens hrest
          | cons_cons => exact absurd rfl hc

/-- Going from left to right finds the longest part that there is. -/
theorem isLongestPart_foundPart (wanted offered : List Char) :
    IsLongestPart wanted offered (foundPart wanted offered) :=
  ⟨foundPart_opens wanted offered, foundPart_sublist wanted offered,
    fun _ hopens hoccurs => length_le_foundPart hopens hoccurs⟩

/-! ### The longest block -/

/-- Some `length` consecutive numbers are all among the places. -/
def HasBlock (places : List Nat) (length : Nat) : Prop :=
  ∃ first, ∀ place, first ≤ place → place < first + length → place ∈ places

/-- More places have the same blocks, and perhaps others. -/
theorem HasBlock.mono {others : List Nat} {length : Nat} (h : HasBlock places length)
    (hsub : places ⊆ others) : HasBlock others length := by
  obtain ⟨first, hblock⟩ := h
  exact ⟨first, fun place hle hlt => hsub (hblock place hle hlt)⟩

/-- A block lies wholly before a number that is left out, or wholly behind it. -/
theorem setOf_hasBlock_append {front back : List Nat} {gap : Nat}
    (hfront : ∀ place ∈ front, place < gap) (hback : ∀ place ∈ back, gap < place) :
    {length | HasBlock (front ++ back) length} =
      {length | HasBlock front length} ∪ {length | HasBlock back length} := by
  ext length
  constructor
  · rintro ⟨first, hblock⟩
    have hgap : gap ∉ front ++ back := by
      rw [List.mem_append]
      rintro (hmem | hmem)
      · exact Nat.lt_irrefl gap (hfront gap hmem)
      · exact Nat.lt_irrefl gap (hback gap hmem)
    -- no block reaches over the gap, so it lies on one side of it
    by_cases hside : first ≤ gap
    · have hend : first + length ≤ gap := by
        by_contra hlong
        exact hgap (hblock gap hside (Nat.not_le.mp hlong))
      refine .inl ⟨first, fun place hle hlt => ?_⟩
      rcases List.mem_append.mp (hblock place hle hlt) with hmem | hmem
      · exact hmem
      · have := hback place hmem
        omega
    · refine .inr ⟨first, fun place hle hlt => ?_⟩
      rcases List.mem_append.mp (hblock place hle hlt) with hmem | hmem
      · have := hfront place hmem
        omega
      · exact hmem
  · rintro (hblock | hblock)
    · exact HasBlock.mono hblock (List.subset_append_left front back)
    · exact HasBlock.mono hblock (List.subset_append_right front back)

/-- Of places in a row, the longest block is all of them. -/
theorem isGreatest_range' (first run : Nat) :
    IsGreatest {length | HasBlock (List.range' first run) length} run := by
  constructor
  · refine ⟨first, fun place hle hlt => ?_⟩
    rw [List.mem_range'_1]
    omega
  · rintro length ⟨start, hblock⟩
    by_contra hlong
    have hstart := hblock start (Nat.le_refl _) (by omega)
    have hlast := hblock (start + run) (by omega) (by omega)
    rw [List.mem_range'_1] at hstart hlast
    omega

/-- Numbers of which the last ones, `run` in a row up to `last`, have been counted. -/
theorem isGreatest_longestRunAfter {last run : Nat} {rest : List Nat} (hrun : run ≤ last + 1)
    (hpos : 0 < run) (hbehind : ∀ place ∈ rest, last < place) (hgrow : rest.Pairwise (· < ·)) :
    IsGreatest {length | HasBlock (List.range' (last + 1 - run) run ++ rest) length}
      (longestRunAfter last run rest) := by
  induction rest generalizing last run with
  | nil =>
    rw [longestRunAfter, List.append_nil]
    exact isGreatest_range' (last + 1 - run) run
  | cons place rest ih =>
    obtain ⟨hnext, hgrow⟩ := List.pairwise_cons.mp hgrow
    have hplace := hbehind place List.mem_cons_self
    rw [longestRunAfter]
    split
    next heq =>
      -- the block goes on
      have hgo := @ih place (run + 1) (by omega) (by omega) hnext hgrow
      have hstart : place + 1 - (run + 1) = last + 1 - run := by omega
      have hlast : last + 1 - run + run = place := by omega
      rw [hstart, List.range'_concat, Nat.one_mul, hlast, List.append_assoc] at hgo
      exact hgo
    next hne =>
      -- the number behind the block is left out
      have hanew := @ih place 1 (by omega) Nat.one_pos hnext hgrow
      rw [Nat.add_sub_cancel, List.range'_one, List.singleton_append] at hanew
      have hbefore : ∀ before ∈ List.range' (last + 1 - run) run, before < last + 1 := by
        intro before hmem
        rw [List.mem_range'_1] at hmem
        omega
      have hafter : ∀ after ∈ place :: rest, last + 1 < after := by
        intro after hmem
        rcases List.mem_cons.mp hmem with rfl | hmem
        · omega
        · have := hnext after hmem
          omega
      rw [setOf_hasBlock_append hbefore hafter]
      exact (isGreatest_range' (last + 1 - run) run).union hanew

/-- The longest run is the length of the longest block. -/
theorem isGreatest_longestRun (hgrow : places.Pairwise (· < ·)) :
    IsGreatest {length | HasBlock places length} (longestRun places) := by
  cases places with
  | nil => exact isGreatest_range' 0 0
  | cons place rest =>
    obtain ⟨hnext, hgrow⟩ := List.pairwise_cons.mp hgrow
    have hanew := @isGreatest_longestRunAfter place 1 rest (by omega) Nat.one_pos hnext hgrow
    rw [Nat.add_sub_cancel, List.range'_one, List.singleton_append] at hanew
    exact hanew

/-! ### The formula -/

/-- What is shared out for `found` characters and for a block of `run` places, and a bonus for a
common first character, less what the candidate is longer; all of it between 0 and 100. -/
def formula (m n found run : Nat) (sameStart : Prop) [Decidable sameStart] : Int :=
  let gained := 60 * found / m + 20 * run / m + if sameStart then 20 else 0
  max 0 (min ((gained : Int) - (min (n - m) 10 : Nat)) 100)

/-- The score of a candidate, said without a search. -/
inductive ScoredAs (pattern candidate : String) : Nat → Prop where
  /-- The candidate is shorter than the pattern. -/
  | shorter (short : candidate.length < pattern.length) : ScoredAs pattern candidate 0
  /-- It is not, and in lowercase it begins with the pattern. -/
  | begins (long : pattern.length ≤ candidate.length)
      (opens : (Text.lowercase pattern).toList <+: (Text.lowercase candidate).toList) :
      ScoredAs pattern candidate 100
  /-- Otherwise, some character of the pattern does not occur in it. -/
  | lacks (long : pattern.length ≤ candidate.length)
      (differs : ¬(Text.lowercase pattern).toList <+: (Text.lowercase candidate).toList)
      (c : Char) (wanted : c ∈ (Text.lowercase pattern).toList)
      (missing : c ∉ (Text.lowercase candidate).toList) : ScoredAs pattern candidate 0
  /-- Otherwise, the longest part of the pattern that occurs in it counts, and the longest block of
  the places where that part occurs first. -/
  | counted (long : pattern.length ≤ candidate.length)
      (differs : ¬(Text.lowercase pattern).toList <+: (Text.lowercase candidate).toList)
      (present : ∀ c ∈ (Text.lowercase pattern).toList, c ∈ (Text.lowercase candidate).toList)
      (part : List Char) (places : List Nat) (run value : Nat)
      (longest : IsLongestPart (Text.lowercase pattern).toList (Text.lowercase candidate).toList part)
      (earliest : IsLeftmost part (Text.lowercase candidate).toList places)
      (block : IsGreatest {length | HasBlock places length} run)
      (sum : (value : Int) = formula pattern.length candidate.length part.length run
        ((Text.lowercase pattern).toList.head? = (Text.lowercase candidate).toList.head?)) :
      ScoredAs pattern candidate value

/-- The points, computed with natural numbers, are those of the formula over the integers. -/
theorem cast_scoreOfPlaces (m n : Nat) (places : List Nat) :
    (scoreOfPlaces m n places : Int) =
      formula m n places.length (longestRun places) (places.head? = some 0) := by
  simp only [scoreOfPlaces, formula, fullScore, matchWeight, runWeight, startBonus,
    maxLengthPenalty, Nat.mul_comm _ 60, Nat.mul_comm _ 20]
  omega

/-- The search begins with the first place of all exactly if both texts have the same first
character. -/
theorem head?_leftmost_eq_zero_iff (hwanted : wanted ≠ [])
    (hpresent : ∀ c ∈ wanted, c ∈ offered) :
    (leftmost wanted 0 offered).head? = some 0 ↔ wanted.head? = offered.head? := by
  cases wanted with
  | nil => exact absurd rfl hwanted
  | cons w ws =>
    cases offered with
    | nil => exact absurd (hpresent w List.mem_cons_self) List.not_mem_nil
    | cons c rest =>
      by_cases hc : c = w
      · subst hc
        rw [leftmost_cons_of_eq]
        simp
      · rw [leftmost_cons_of_ne ws rest hc, List.head?_map]
        simp [Ne.symm hc]

variable {pattern candidate : String}

/-- The empty pattern begins every text, so one that does not is not empty. -/
theorem length_pos_of_differs
    (hdiffers : ¬(Text.lowercase pattern).toList <+: (Text.lowercase candidate).toList) :
    0 < pattern.length := by
  by_contra hnone
  rw [Nat.not_lt, Nat.le_zero, String.length_eq_zero_iff] at hnone
  subst hnone
  exact hdiffers List.nil_prefix

/-- A pattern with a character that the candidate lacks has no points. -/
theorem score_eq_zero_of_not_mem {c : Char}
    (hdiffers : ¬(Text.lowercase pattern).toList <+: (Text.lowercase candidate).toList)
    (hwanted : c ∈ (Text.lowercase pattern).toList)
    (hmissing : c ∉ (Text.lowercase candidate).toList) : score pattern candidate = 0 := by
  have hall : ¬(Text.lowercase pattern).toList.all
      ((Text.lowercase candidate).toList.contains ·) := by
    rw [List.all_eq_true]
    intro hall
    exact hmissing (List.contains_iff_mem.mp (hall c hwanted))
  simp only [score, List.isPrefixOf_iff_prefix, if_neg hdiffers, if_neg hall, ite_self]

/-- A candidate that is long enough, does not begin with the pattern and has all of its characters
is scored by the leftmost places. -/
theorem score_eq_scoreOfPlaces (hlong : pattern.length ≤ candidate.length)
    (hdiffers : ¬(Text.lowercase pattern).toList <+: (Text.lowercase candidate).toList)
    (hpresent : ∀ c ∈ (Text.lowercase pattern).toList, c ∈ (Text.lowercase candidate).toList) :
    score pattern candidate = scoreOfPlaces pattern.length candidate.length
      (leftmost (Text.lowercase pattern).toList 0 (Text.lowercase candidate).toList) := by
  have hall : (Text.lowercase pattern).toList.all
      ((Text.lowercase candidate).toList.contains ·) := by
    rw [List.all_eq_true]
    intro c hc
    exact List.contains_iff_mem.mpr (hpresent c hc)
  simp only [score, List.isPrefixOf_iff_prefix, if_neg (Nat.not_lt.mpr hlong), if_neg hdiffers,
    if_pos hall]

/-- The score in the last case is that of the formula, for what the search finds. -/
theorem cast_score (hlong : pattern.length ≤ candidate.length)
    (hdiffers : ¬(Text.lowercase pattern).toList <+: (Text.lowercase candidate).toList)
    (hpresent : ∀ c ∈ (Text.lowercase pattern).toList, c ∈ (Text.lowercase candidate).toList) :
    (score pattern candidate : Int) = formula pattern.length candidate.length
      (foundPart (Text.lowercase pattern).toList (Text.lowercase candidate).toList).length
      (longestRun (leftmost (Text.lowercase pattern).toList 0 (Text.lowercase candidate).toList))
      ((Text.lowercase pattern).toList.head? = (Text.lowercase candidate).toList.head?) := by
  have hwanted : (Text.lowercase pattern).toList ≠ [] := by
    intro hnil
    rw [hnil] at hdiffers
    exact hdiffers List.nil_prefix
  rw [score_eq_scoreOfPlaces hlong hdiffers hpresent, cast_scoreOfPlaces, length_foundPart]
  simp only [formula, head?_leftmost_eq_zero_iff hwanted hpresent]

/-- **The formula of the score.** A candidate that is shorter than the pattern has none, one that
begins with the pattern in lowercase has the full score, and one that lacks a character of it has
none. For all others the longest part of the pattern that occurs in them is counted, with the
longest block in its leftmost places; then the pattern, whose length is divided by, is not empty. -/
theorem score_eq_iff_scoredAs (pattern candidate : String) (value : Nat) :
    (score pattern candidate = value ↔ ScoredAs pattern candidate value) ∧
      (0 < pattern.length ∨
        (Text.lowercase pattern).toList <+: (Text.lowercase candidate).toList) := by
  refine ⟨⟨?_, ?_⟩, ?_⟩
  · rintro rfl
    by_cases hshort : candidate.length < pattern.length
    · rw [score_eq_zero_of_length_lt hshort]
      exact .shorter hshort
    have hlong := Nat.not_lt.mp hshort
    by_cases hopens : (Text.lowercase pattern).toList <+: (Text.lowercase candidate).toList
    · have hfull := score_eq_fullScore_of_prefix hlong hopens
      rw [hfull]
      exact .begins hlong hopens
    by_cases hpresent :
        ∀ c ∈ (Text.lowercase pattern).toList, c ∈ (Text.lowercase candidate).toList
    · have hplaces := isLeftmost_leftmost (Text.lowercase pattern).toList
        (Text.lowercase candidate).toList
      exact .counted hlong hopens hpresent _ _ _ _ (isLongestPart_foundPart _ _) hplaces
        (isGreatest_longestRun hplaces.grow) (cast_score hlong hopens hpresent)
    · push Not at hpresent
      obtain ⟨c, hwanted, hmissing⟩ := hpresent
      rw [score_eq_zero_of_not_mem hopens hwanted hmissing]
      exact .lacks hlong hopens c hwanted hmissing
  · intro h
    cases h with
    | shorter hshort => exact score_eq_zero_of_length_lt hshort
    | begins hlong hopens => exact score_eq_fullScore_of_prefix hlong hopens
    | lacks _ hdiffers c hwanted hmissing =>
      exact score_eq_zero_of_not_mem hdiffers hwanted hmissing
    | counted hlong hdiffers hpresent part places run value hlongest hearliest hblock hsum =>
      -- part, places and block are those of the search
      obtain rfl := hlongest.unique (isLongestPart_foundPart _ _)
      obtain rfl := hearliest.unique (isLeftmost_leftmost _ _)
      obtain rfl := hblock.unique (isGreatest_longestRun hearliest.grow)
      have hscore := cast_score hlong hdiffers hpresent
      rw [← hsum] at hscore
      exact Int.ofNat.inj hscore
  · by_cases hopens : (Text.lowercase pattern).toList <+: (Text.lowercase candidate).toList
    · exact .inr hopens
    · exact .inl (length_pos_of_differs hopens)

/-- The pattern is found at the places 0 and 4, though it stands in one piece at the end. -/
example : score "ab" "Axxab" = 60 + 10 + 20 - 3 := by decide

end ShellCompletion.Matching
