/-
The checkers that count ranks, against the profile of the hand: which ranks it
holds twice, and which three times.

`CheckTwoPair` means to leave the first pair out of its second search, but
compares that pair's rank with a count. So it answers by what the first pair
is: any hand with a pair is two pair, unless its lowest pair is the fours.
`CheckFullHouse` asks for a rank held exactly twice beside the triplet, and
misses two triplets.
-/
import Mathlib.Data.Finset.Powerset
import Mathlib.Logic.Equiv.Fintype
import PokerEngine.Combination
import PokerEngine.Renaming

namespace PokerEngine

open Card (Suit Rank)
open HandEvaluator (counted reports_iff)

/-! ## Two pairs -/

/-- The ranks held exactly twice. -/
def pairedRanks (hand : List Card) : Finset Rank := {r | rankCount hand r = 2}

/-- The lowest rank of the set is there, and is not the four. -/
def LowestNotFour (rs : Finset Rank) : Prop := ∃ r ∈ rs, (∀ t : Rank, t.toNat < r.toNat → t ∉ rs) ∧ r ≠ .four

theorem mem_pairedRanks {hand : List Card} {r : Rank} : r ∈ pairedRanks hand ↔ rankCount hand r = 2 := by
  simp [pairedRanks]

theorem pairedRanks_renameRanks (π : Equiv.Perm Rank) (hand : List Card) :
    pairedRanks (renameRanks π hand) = (pairedRanks hand).map π.toEmbedding := by
  ext r
  obtain ⟨r, rfl⟩ := π.surjective r
  rw [Finset.mem_map_equiv, Equiv.symm_apply_apply, mem_pairedRanks, mem_pairedRanks, rankCount_renameRanks]

theorem lowestNotFour_iff {hand : List Card} :
    LowestNotFour (pairedRanks hand) ↔ ∃ r, LowestPair hand r ∧ r ≠ .four := by
  simp only [LowestNotFour, LowestPair, mem_pairedRanks, and_assoc, ne_eq]

/-- What the checker answers, by the set of ranks held twice. -/
theorem checkTwoPair_of_nodup {hand : List Card} (hn : hand.Nodup) :
    (counted hand).checkTwoPair hand = .ok (some .twoPair) ↔ LowestNotFour (pairedRanks hand) := by
  rw [HandEvaluator.checkTwoPair_eq, reports_iff, lowestNotFour_iff]
  simp only [firstPair_iff hn]

theorem checkTwoPair_eq_iff {hand hand' : List Card} (hn : hand.Nodup) (hn' : hand'.Nodup) :
    (counted hand).checkTwoPair hand = (counted hand').checkTwoPair hand' ↔
      (LowestNotFour (pairedRanks hand) ↔ LowestNotFour (pairedRanks hand')) := by
  rw [← checkTwoPair_of_nodup hn, ← checkTwoPair_of_nodup hn', HandEvaluator.checkTwoPair_eq,
    HandEvaluator.checkTwoPair_eq]
  split_ifs <;> simp

section Sets

variable {rs : Finset Rank}

theorem lowestNotFour_of_two (h : .two ∈ rs) : LowestNotFour rs :=
  ⟨.two, h, fun t ht => absurd ht (Nat.not_lt_zero _), by decide⟩

/-- Twelve ranks include the two or the three. -/
theorem lowestNotFour_of_twelve (h : 12 ≤ rs.card) : LowestNotFour rs := by
  by_cases h2 : .two ∈ rs
  · exact lowestNotFour_of_two h2
  have h3 : Rank.three ∈ rs := by
    by_contra h3
    have hsub : rs ⊆ {Rank.two, .three}ᶜ := fun r hr => by
      simp only [Finset.mem_compl, Finset.mem_insert, Finset.mem_singleton, not_or]
      exact ⟨fun he => h2 (he ▸ hr), fun he => h3 (he ▸ hr)⟩
    have := Finset.card_le_card hsub
    have hcard : ({Rank.two, .three}ᶜ : Finset Rank).card = 11 := by decide
    omega
  refine ⟨.three, h3, fun t ht => ?_, by decide⟩
  have : t = .two := Rank.toNat_injective (Nat.lt_one_iff.mp ht)
  exact this ▸ h2

theorem not_lowestNotFour_of_four (h2 : .two ∉ rs) (h3 : .three ∉ rs) (h4 : .four ∈ rs) : ¬ LowestNotFour rs := by
  intro ⟨r, hr, hmin, hne⟩
  have hle : r.toNat ≤ 2 := by
    by_contra hlt
    exact hmin .four (by rw [not_le] at hlt; exact hlt) h4
  cases r <;> contradiction

/-- Ranks can be renamed so that the two is one of them. -/
theorem exists_perm_two (h : rs.card ≠ 0) : ∃ π : Equiv.Perm Rank, LowestNotFour (rs.map π.toEmbedding) := by
  obtain ⟨ts, hsub, -, hcard⟩ := Finset.exists_subsuperset_card_eq (Finset.subset_univ {Rank.two})
    (Nat.one_le_iff_ne_zero.mpr h) (Finset.card_le_univ rs)
  obtain ⟨π, hπ⟩ := Equiv.Perm.exists_map_finset_eq rs ts hcard.symm
  exact ⟨π, hπ ▸ lowestNotFour_of_two (hsub (by simp))⟩

/-- One to eleven ranks can be renamed to ranks of which the four is lowest. -/
theorem exists_perm_four (h : rs.card ≠ 0) (h' : rs.card < 12) :
    ∃ π : Equiv.Perm Rank, ¬ LowestNotFour (rs.map π.toEmbedding) := by
  have hcompl : ({Rank.two, .three}ᶜ : Finset Rank).card = 11 := by decide
  obtain ⟨ts, hsub, hout, hcard⟩ := Finset.exists_subsuperset_card_eq
    (show {Rank.four} ⊆ ({Rank.two, .three}ᶜ : Finset Rank) by decide) (Nat.one_le_iff_ne_zero.mpr h)
    (hcompl ▸ Nat.le_of_lt_succ h')
  obtain ⟨π, hπ⟩ := Equiv.Perm.exists_map_finset_eq rs ts hcard.symm
  refine ⟨π, hπ ▸ not_lowestNotFour_of_four (fun h2 => ?_) (fun h3 => ?_) (hsub (by simp))⟩
  · exact absurd (hout h2) (by simp)
  · exact absurd (hout h3) (by simp)

/-- When every renaming of the ranks leaves the answer as it is. -/
theorem forall_lowestNotFour_map_iff :
    (∀ π : Equiv.Perm Rank, LowestNotFour (rs.map π.toEmbedding) ↔ LowestNotFour rs) ↔
      rs.card = 0 ∨ 12 ≤ rs.card := by
  constructor
  · intro h
    by_contra hcard
    rw [not_or, not_le] at hcard
    obtain ⟨π, hπ⟩ := exists_perm_two hcard.1
    obtain ⟨π', hπ'⟩ := exists_perm_four hcard.1 hcard.2
    exact hπ' ((h π').mpr ((h π).mp hπ))
  · rintro (h | h) π
    · rw [Finset.card_eq_zero.mp h, Finset.map_empty]
    · exact iff_of_true (lowestNotFour_of_twelve (by rwa [Finset.card_map])) (lowestNotFour_of_twelve h)

end Sets

/-- When the lowest pair tells whether there is another one. -/
theorem lowestNotFour_iff_twoPairs_iff {hand : List Card} (hn : hand.Nodup) :
    (LowestNotFour (pairedRanks hand) ↔ ∃ r t, r ≠ t ∧ rankCount hand r = 2 ∧ rankCount hand t = 2) ↔
      ∀ r, LowestPair hand r → (r = .four ↔ ∀ t, rankCount hand t = 2 → t = r) := by
  rw [lowestNotFour_iff]
  by_cases hpair : ∃ r, rankCount hand r = 2
  · obtain ⟨r, hr⟩ := exists_firstPair ((countsRank_iff hn 2).mpr hpair)
    have huniq : ∀ t, LowestPair hand t ↔ t = r := fun t =>
      ⟨fun ht => ((firstPair_iff hn t).mpr ht).unique hr, fun ht => ht ▸ (firstPair_iff hn r).mp hr⟩
    have hr2 : rankCount hand r = 2 := ((huniq r).mpr rfl).1
    have hother : (∃ s t, s ≠ t ∧ rankCount hand s = 2 ∧ rankCount hand t = 2) ↔
        ¬ ∀ t, rankCount hand t = 2 → t = r := by
      constructor
      · intro ⟨s, t, hne, hs, ht⟩ h
        exact hne ((h s hs).trans (h t ht).symm)
      · intro h
        rw [not_forall] at h
        obtain ⟨t, ht⟩ := h
        rw [Classical.not_imp] at ht
        exact ⟨t, r, ht.2, ht.1, hr2⟩
    simp only [huniq, exists_eq_left, forall_eq, hother]
    tauto
  · have hnone : ∀ r, rankCount hand r ≠ 2 := fun r hr => hpair ⟨r, hr⟩
    simp [LowestPair, hnone]

/-- **When `CheckTwoPair` is right about a hand without duplicates**: when the
lowest rank held twice is the four exactly if it is the only one. **When
renaming the ranks never changes its answer**: when no rank is held twice, or
at least twelve are. -/
theorem checkTwoPair_iff {hand : List Card} (hn : hand.Nodup) :
    (((counted hand).checkTwoPair hand = .ok (some .twoPair) ↔
        ∃ r t, r ≠ t ∧ rankCount hand r = 2 ∧ rankCount hand t = 2) ↔
      ∀ r, LowestPair hand r → (r = .four ↔ ∀ t, rankCount hand t = 2 → t = r)) ∧
    ((∀ π : Equiv.Perm Rank, (counted (renameRanks π hand)).checkTwoPair (renameRanks π hand) =
        (counted hand).checkTwoPair hand) ↔
      (pairedRanks hand).card = 0 ∨ 12 ≤ (pairedRanks hand).card) := by
  constructor
  · rw [checkTwoPair_of_nodup hn, lowestNotFour_iff_twoPairs_iff hn]
  · rw [← forall_lowestNotFour_map_iff]
    refine forall_congr' fun π => ?_
    rw [checkTwoPair_eq_iff (nodup_renameRanks π hn) hn, pairedRanks_renameRanks]

theorem checkTwoPair_iff_twosAndThrees :
    ((counted [⟨.spades, .two⟩, ⟨.clubs, .two⟩, ⟨.spades, .three⟩, ⟨.clubs, .three⟩]).checkTwoPair
        [⟨.spades, .two⟩, ⟨.clubs, .two⟩, ⟨.spades, .three⟩, ⟨.clubs, .three⟩] = .ok (some .twoPair) ↔
      ∃ r t, r ≠ t ∧
        rankCount [⟨.spades, .two⟩, ⟨.clubs, .two⟩, ⟨.spades, .three⟩, ⟨.clubs, .three⟩] r = 2 ∧
        rankCount [⟨.spades, .two⟩, ⟨.clubs, .two⟩, ⟨.spades, .three⟩, ⟨.clubs, .three⟩] t = 2) :=
  (checkTwoPair_iff (by decide)).1.mpr (by decide)

/-- A pair of twos is reported as two pair, and not once the twos are called
fours; fours and fives are not reported. -/
theorem checkTwoPair_depends_on_ranks :
    ([⟨.spades, .two⟩, ⟨.clubs, .two⟩] : List Card).Nodup ∧
    ((counted [⟨.spades, .two⟩, ⟨.clubs, .two⟩]).checkTwoPair [⟨.spades, .two⟩, ⟨.clubs, .two⟩] =
        .ok (some .twoPair) ∧
      ¬ ∃ r t, r ≠ t ∧ rankCount [⟨.spades, .two⟩, ⟨.clubs, .two⟩] r = 2 ∧
        rankCount [⟨.spades, .two⟩, ⟨.clubs, .two⟩] t = 2) ∧
    (counted (renameRanks (Equiv.swap .two .four) [⟨.spades, .two⟩, ⟨.clubs, .two⟩])).checkTwoPair
        (renameRanks (Equiv.swap .two .four) [⟨.spades, .two⟩, ⟨.clubs, .two⟩]) = .ok none ∧
    (counted [⟨.spades, .four⟩, ⟨.clubs, .four⟩, ⟨.spades, .five⟩, ⟨.clubs, .five⟩]).checkTwoPair
        [⟨.spades, .four⟩, ⟨.clubs, .four⟩, ⟨.spades, .five⟩, ⟨.clubs, .five⟩] = .ok none := by
  decide

/-! ## Full houses -/

/-- Five cards of the hand are a triplet and a pair. -/
def TripletAndPair (hand : List Card) : Prop :=
  ∃ triplet pair : List Card, (triplet ++ pair).Subperm hand ∧ triplet.length = 3 ∧ pair.length = 2 ∧
    ∃ r t, r ≠ t ∧ (∀ c ∈ triplet, c.rank = r) ∧ ∀ c ∈ pair, c.rank = t

/-- The first `n` cards of a rank. -/
theorem exists_cards {hand : List Card} {r : Rank} {n : Nat} (h : n ≤ rankCount hand r) :
    ∃ cards : List Card, cards.Sublist (hand.filter (·.rank = r)) ∧ cards.length = n := by
  refine ⟨(hand.filter (·.rank = r)).take n, List.take_sublist _ _, List.length_take_of_le ?_⟩
  rwa [← List.countP_eq_length_filter]

theorem rankCount_of_forall {cards : List Card} {r : Rank} (h : ∀ c ∈ cards, c.rank = r) :
    rankCount cards r = cards.length := by
  rw [rankCount, List.countP_eq_length]
  simpa using h

/-- A triplet and a pair are one rank held three times and another held
twice. -/
theorem tripletAndPair_iff {hand : List Card} :
    TripletAndPair hand ↔ ∃ r t, r ≠ t ∧ 3 ≤ rankCount hand r ∧ 2 ≤ rankCount hand t := by
  constructor
  · rintro ⟨triplet, pair, hsub, h3, h2, r, t, hne, hr, ht⟩
    have hcount : ∀ u, rankCount triplet u + rankCount pair u ≤ rankCount hand u := fun u => by
      simpa only [rankCount, List.countP_append] using hsub.countP_le _
    have h₁ := hcount r
    have h₂ := hcount t
    rw [rankCount_of_forall hr] at h₁
    rw [rankCount_of_forall ht] at h₂
    exact ⟨r, t, hne, by omega, by omega⟩
  · rintro ⟨r, t, hne, hr, ht⟩
    obtain ⟨triplet, hsub, h3⟩ := exists_cards hr
    obtain ⟨pair, hsub', h2⟩ := exists_cards ht
    have hrank : ∀ {cards : List Card} {u : Rank}, cards.Sublist (hand.filter (·.rank = u)) →
        ∀ c ∈ cards, c.rank = u := fun hs c hc => by simpa using (List.mem_filter.mp (hs.subset hc)).2
    refine ⟨triplet, pair, ?_, h3, h2, r, t, hne, hrank hsub, hrank hsub'⟩
    -- The cards of rank `t` are among those that are not of rank `r`.
    have hpair : pair.Sublist (hand.filter fun c => !decide (c.rank = r)) := by
      refine List.Sublist.trans hsub' (List.monotone_filter_right hand fun c hc => ?_)
      simp only [decide_eq_true_eq] at hc
      simpa [hc] using hne.symm
    exact (hsub.append hpair).subperm.trans (List.filter_append_perm _ hand).subperm

/-- **When `CheckFullHouse` is right about a hand without duplicates and
without four of a kind**: when some rank is held exactly twice, or at most one
is held three times. -/
theorem checkFullHouse_iff {hand : List Card} (hn : hand.Nodup) (h4 : ∀ r, rankCount hand r ≠ 4) :
    ((counted hand).checkFullHouse hand = .ok (some .fullHouse) ↔
        (∃ r t, r ≠ t ∧ 3 ≤ rankCount hand r ∧ 2 ≤ rankCount hand t) ∧ TripletAndPair hand) ↔
      ((∃ r, rankCount hand r = 2) ∨ ∀ r t, rankCount hand r = 3 → rankCount hand t = 3 → r = t) := by
  rw [HandEvaluator.checkFullHouse_eq, reports_iff, countsRank_iff hn, countsRank_iff hn, tripletAndPair_iff, and_self]
  have hle : ∀ r, rankCount hand r ≤ 3 := fun r => by
    have := rankCount_le hn r
    have := h4 r
    omega
  constructor
  · intro hiff
    by_contra hcond
    rw [not_or] at hcond
    obtain ⟨hpair, htwo⟩ := hcond
    simp only [not_forall] at htwo
    obtain ⟨r, t, hr, ht, hne⟩ := htwo
    exact hpair (hiff.mpr ⟨r, t, hne, hr.ge, by omega⟩).1
  · intro hcond
    constructor
    · intro ⟨⟨t, ht⟩, r, hr⟩
      exact ⟨r, t, fun he => by subst he; omega, hr.ge, ht.ge⟩
    · intro ⟨r, t, hne, hr, ht⟩
      have hr3 : rankCount hand r = 3 := Nat.le_antisymm (hle r) hr
      refine ⟨?_, r, hr3⟩
      rcases hcond with hpair | hone
      · exact hpair
      · refine ⟨t, ?_⟩
        have := hle t
        have : rankCount hand t ≠ 3 := fun ht3 => hne (hone r t hr3 ht3)
        omega

/-- Three twos and two threes. -/
def twosOverThrees : List Card :=
  [⟨.spades, .two⟩, ⟨.clubs, .two⟩, ⟨.hearts, .two⟩, ⟨.spades, .three⟩, ⟨.clubs, .three⟩]

theorem checkFullHouse_iff_twosOverThrees :
    (counted twosOverThrees).checkFullHouse twosOverThrees = .ok (some .fullHouse) ↔
      (∃ r t, r ≠ t ∧ 3 ≤ rankCount twosOverThrees r ∧ 2 ≤ rankCount twosOverThrees t) ∧
        TripletAndPair twosOverThrees :=
  (checkFullHouse_iff (by decide) (by decide)).mpr (by decide)

/-- A third three, and the full house is missed. -/
theorem checkFullHouse_misses_twoTriplets :
    (⟨.hearts, .three⟩ :: twosOverThrees).Nodup ∧ (∀ r, rankCount (⟨.hearts, .three⟩ :: twosOverThrees) r ≠ 4) ∧
      TripletAndPair (⟨.hearts, .three⟩ :: twosOverThrees) ∧
      (counted (⟨.hearts, .three⟩ :: twosOverThrees)).checkFullHouse (⟨.hearts, .three⟩ :: twosOverThrees) =
        .ok none :=
  ⟨by decide, by decide, tripletAndPair_iff.mpr ⟨.two, .three, by decide⟩, by decide⟩

end PokerEngine
