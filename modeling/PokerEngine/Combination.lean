/-
The best combination of a hand, and when `Evaluate` returns it.

`Forms` says what each combination asks of the cards; `IsBest` picks the best
one formed. `evaluate_isBest_iff` goes through the hands by their best
combination: for an ascending hand without duplicates it says exactly which of
them `Evaluate` gets right.
-/
import Mathlib.Data.List.Nodup
import Mathlib.Order.WellFounded
import PokerEngine.HandOrder

namespace PokerEngine

open Card (Suit Rank Ascending)

/-- Five consecutive ranks satisfy `has`; with `lowAce`, also ace to five. -/
def HasRun (lowAce : Bool) (has : Rank → Prop) : Prop :=
  (∃ low < 9, ∀ r : Rank, low ≤ r.toNat → r.toNat ≤ low + 4 → has r) ∨
    lowAce = true ∧ ∀ r ∈ [Rank.ace, .two, .three, .four, .five], has r

/-- Some cards of the hand form the combination. `lowAceFlush` says whether ace
to five of one suit is a straight flush; ace to five is always a straight. -/
def Forms (lowAceFlush : Bool) (hand : List Card) : CombinationType → Prop
  | .royalFlush => ∃ s, RoyalIn hand s
  | .straightFlush => ∃ s, HasRun lowAceFlush fun r => (⟨s, r⟩ : Card) ∈ hand
  | .fourOfAKind => ∃ r, 4 ≤ rankCount hand r
  | .fullHouse => ∃ r t, r ≠ t ∧ 3 ≤ rankCount hand r ∧ 2 ≤ rankCount hand t
  | .flush => ∃ s, 5 ≤ suitCount hand s
  | .straight => HasRun true fun r => ∃ c ∈ hand, c.rank = r
  | .threeOfAKind => ∃ r, 3 ≤ rankCount hand r
  | .twoPair => ∃ r t, r ≠ t ∧ 2 ≤ rankCount hand r ∧ 2 ≤ rankCount hand t
  | .pair => ∃ r, 2 ≤ rankCount hand r
  | .highCard => True

/-- `c` is formed, and nothing better is. -/
def IsBest (lowAceFlush : Bool) (hand : List Card) (c : CombinationType) : Prop :=
  Forms lowAceFlush hand c ∧ ∀ c' : CombinationType, c'.toNat < c.toNat → ¬ Forms lowAceFlush hand c'

instance (lowAce : Bool) (has : Rank → Prop) [DecidablePred has] : Decidable (HasRun lowAce has) := by
  unfold HasRun; infer_instance

instance (lowAceFlush : Bool) (hand : List Card) : DecidablePred (Forms lowAceFlush hand) := fun c => by
  cases c <;> unfold Forms <;> infer_instance

/-- The first suit with five cards. -/
def FirstFive (hand : List Card) (s : Suit) : Prop :=
  5 ≤ suitCount hand s ∧ ∀ t : Suit, t.toNat < s.toNat → suitCount hand t < 5

/-- The lowest rank held exactly twice. -/
def LowestPair (hand : List Card) (r : Rank) : Prop :=
  rankCount hand r = 2 ∧ ∀ t : Rank, t.toNat < r.toNat → rankCount hand t ≠ 2

instance (hand r) : Decidable (LowestPair hand r) := by unfold LowestPair; infer_instance

/-- What the hand must satisfy, by its best combination, for `Evaluate` to
return it. -/
def EvaluatesRight (hand : List Card) : CombinationType → Prop
  | .royalFlush => ∃ s, FirstFive hand s ∧ RoyalIn hand s
  | .straightFlush => True
  | .fourOfAKind => ∀ s, suitCount hand s < 5
  | .fullHouse => (∀ s, suitCount hand s < 5) ∧ ∃ r, rankCount hand r = 2
  | .flush => False
  | .straight => FiveConsecutiveInnerOnce hand
  | .threeOfAKind => False
  | .twoPair => ∃ r, LowestPair hand r ∧ r ≠ .four
  | .pair => rankCount hand .four = 2
  | .highCard => True

/-! ## Hands without duplicates -/

section Nodup

variable {hand : List Card} (hn : hand.Nodup)
include hn

/-- A suit has at most thirteen different cards. -/
theorem suitCount_le (s : Suit) : suitCount hand s ≤ 13 := by
  have hnodup : ((hand.filter (·.suit = s)).map (·.rank)).Nodup := by
    refine (hn.filter _).map_on fun c hc d hd hcd => ?_
    simp only [List.mem_filter, decide_eq_true_eq] at hc hd
    cases c; cases d; simp_all
  have := hnodup.length_le_card
  rwa [List.length_map, ← List.countP_eq_length_filter] at this

/-- A rank has at most four different cards. -/
theorem rankCount_le (r : Rank) : rankCount hand r ≤ 4 := by
  have hnodup : ((hand.filter (·.rank = r)).map (·.suit)).Nodup := by
    refine (hn.filter _).map_on fun c hc d hd hcd => ?_
    simp only [List.mem_filter, decide_eq_true_eq] at hc hd
    cases c; cases d; simp_all
  have := hnodup.length_le_card
  rwa [List.length_map, ← List.countP_eq_length_filter] at this

theorem suitCount_mod (s : Suit) : suitCount hand s % 256 = suitCount hand s :=
  Nat.mod_eq_of_lt (by have := suitCount_le hn s; omega)

theorem rankCount_mod (r : Rank) : rankCount hand r % 256 = rankCount hand r :=
  Nat.mod_eq_of_lt (by have := rankCount_le hn r; omega)

theorem flushSuit_iff (s : Suit) : FlushSuit hand s ↔ FirstFive hand s := by
  simp only [FlushSuit, FirstFive, suitCount_mod hn, Nat.lt_iff_add_one_le, not_le]

theorem firstPair_iff (r : Rank) : FirstPair hand r ↔ LowestPair hand r := by
  simp only [FirstPair, LowestPair, rankCount_mod hn, ne_eq]

theorem countsRank_iff (n : Nat) : CountsRank hand n ↔ ∃ r, rankCount hand r = n := by
  simp only [CountsRank, rankCount_mod hn]

theorem countsFlushSuit_iff (lowAceFlush : Bool) : CountsFlushSuit hand ↔ Forms lowAceFlush hand .flush := by
  simp only [CountsFlushSuit, Forms, suitCount_mod hn]
  exact exists_congr fun s => Nat.lt_iff_add_one_le

theorem not_countsFlushSuit_iff : ¬ CountsFlushSuit hand ↔ ∀ s, suitCount hand s < 5 := by
  simp only [countsFlushSuit_iff hn true, Forms, not_exists, not_le]

theorem countsRank_four_iff (lowAceFlush : Bool) : CountsRank hand 4 ↔ Forms lowAceFlush hand .fourOfAKind := by
  rw [countsRank_iff hn, Forms]
  exact exists_congr fun r => ⟨fun h => h.ge, fun h => Nat.le_antisymm (rankCount_le hn r) h⟩

end Nodup

/-- Five cards of a suit among the cards of a run of that suit. -/
theorem suitCount_ge_of_run {hand : List Card} {s : Suit} (rs : List Rank) (hrs : rs.Nodup)
    (h : ∀ r ∈ rs, (⟨s, r⟩ : Card) ∈ hand) : rs.length ≤ suitCount hand s := by
  have hnodup : (rs.map fun r => (⟨s, r⟩ : Card)).Nodup :=
    hrs.map fun r t hrt => by simpa using hrt
  have hsub : (rs.map fun r => (⟨s, r⟩ : Card)) ⊆ hand.filter (·.suit = s) := by
    intro c hc
    obtain ⟨r, hr, rfl⟩ := List.mem_map.mp hc
    simpa using h r hr
  have := (List.subperm_of_subset hnodup hsub).length_le
  rwa [List.length_map, ← List.countP_eq_length_filter] at this

theorem RoyalIn.five_le {hand : List Card} {s : Suit} (h : RoyalIn hand s) : 5 ≤ suitCount hand s :=
  suitCount_ge_of_run [.ten, .jack, .queen, .king, .ace] (by decide) h

theorem HasRun.five_le {hand : List Card} {s : Suit} {lowAce : Bool}
    (h : HasRun lowAce fun r => (⟨s, r⟩ : Card) ∈ hand) : 5 ≤ suitCount hand s := by
  rcases h with ⟨low, hlow, h⟩ | ⟨-, h⟩
  · let rank : Fin 5 → Rank := fun k => EnumClass.numbering.symm ⟨low + k.val, by omega⟩
    have hrank : ∀ k, (rank k).toNat = low + k.val := fun k => by
      simp [rank, Rank.toNat, EnumClass.toUnderlying]
    have hnodup : (List.ofFn rank).Nodup := List.nodup_ofFn.mpr fun j k hjk => by
      have := congrArg Rank.toNat hjk
      rw [hrank, hrank] at this
      exact Fin.ext (by omega)
    have : (List.ofFn rank).length ≤ suitCount hand s := suitCount_ge_of_run _ hnodup fun r hr => by
      obtain ⟨k, rfl⟩ := (List.mem_ofFn' rank r).mp hr
      exact h _ (by rw [hrank]; omega) (by rw [hrank]; omega)
    rwa [List.length_ofFn] at this
  · exact suitCount_ge_of_run [.ace, .two, .three, .four, .five] (by decide) h

theorem FiveConsecutive.forms_straight {hand : List Card} (h : FiveConsecutive hand) (lowAceFlush : Bool) :
    Forms lowAceFlush hand .straight := by
  obtain ⟨low, h⟩ := fiveConsecutive_iff.mp h
  have hlow := ranks_lt (h 4 (by omega))
  refine .inl ⟨low, by omega, fun r hge hle => ?_⟩
  obtain ⟨c, hc, hrank⟩ := mem_ranks.mp (h (r.toNat - low) (by omega))
  exact ⟨c, hc, Rank.toNat_injective (by omega)⟩

/-! ## The best combination -/

theorem CombinationType.toNat_injective : Function.Injective CombinationType.toNat := by
  intro c d h
  cases c <;> cases d <;> first | rfl | (exact absurd h (by decide))

/-- Every hand has one best combination. -/
theorem existsUnique_isBest (lowAceFlush : Bool) (hand : List Card) : ∃! c, IsBest lowAceFlush hand c := by
  obtain ⟨c, hc, hmin⟩ := (measure CombinationType.toNat).wf.has_min {c | Forms lowAceFlush hand c}
    ⟨.highCard, trivial⟩
  refine ⟨c, ⟨hc, fun c' hlt hc' => hmin c' hc' hlt⟩, fun d hd => CombinationType.toNat_injective ?_⟩
  have h₁ : ¬ c.toNat < d.toNat := fun hlt => hd.2 c hlt hc
  have h₂ : ¬ d.toNat < c.toNat := fun hlt => hmin d hd.1 hlt
  omega

section Best

variable {lowAceFlush : Bool} {hand : List Card}

/-- What `Evaluate` answers is right about the hand only if the hand meets the
condition for it. -/
theorem evaluatesRight_of_isBest (hn : hand.Nodup) (h : Ascending hand)
    (hbest : IsBest lowAceFlush hand (combination hand)) : EvaluatesRight hand (combination hand) := by
  generalize hc : combination hand = c at hbest ⊢
  unfold combination at hc
  split_ifs at hc with hroyal hsuit hfour hfull hrow hthree htwo hpair <;> subst hc
  · obtain ⟨s, hs, hr⟩ := hroyal
    exact ⟨s, (flushSuit_iff hn s).mp hs, hr⟩
  · trivial
  · exact (not_countsFlushSuit_iff hn).mp hsuit
  · exact ⟨(not_countsFlushSuit_iff hn).mp hsuit, (countsRank_iff hn 2).mp hfull.1⟩
  · exact (fiveInARow_iff_innerOnce h).mp hrow
  · exact (not_countsFlushSuit_iff hn).mp hsuit
  · obtain ⟨r, hr, hne⟩ := htwo
    exact ⟨r, (firstPair_iff hn r).mp hr, hne⟩
  -- The first pair is the fours, or the two-pair checker would have answered.
  · obtain ⟨t, hfirst⟩ := exists_firstPair hpair
    have heq : t = .four := by_contra fun hne => htwo ⟨t, hfirst, hne⟩
    subst heq
    change rankCount hand .four = 2
    rw [← rankCount_mod hn, hfirst.1]
  · trivial

/-- A hand that meets the condition for its best combination gets it. -/
theorem combination_of_evaluatesRight (hn : hand.Nodup) (h : Ascending hand) {c : CombinationType}
    (hbest : IsBest lowAceFlush hand c) (hright : EvaluatesRight hand c) : combination hand = c := by
  obtain ⟨hform, hbetter⟩ := hbest
  -- Below a flush no suit is counted five times; below four of a kind no rank four times; and so on.
  have hsuit : CombinationType.flush.toNat < c.toNat → ¬ CountsFlushSuit hand := fun hlt hs =>
    hbetter .flush hlt ((countsFlushSuit_iff hn lowAceFlush).mp hs)
  have hfour : CombinationType.fourOfAKind.toNat < c.toNat → ¬ CountsRank hand 4 := fun hlt hr =>
    hbetter .fourOfAKind hlt ((countsRank_four_iff hn lowAceFlush).mp hr)
  have hfull : CombinationType.fullHouse.toNat < c.toNat → ¬ (CountsRank hand 2 ∧ CountsRank hand 3) := by
    intro hlt ⟨h2, h3⟩
    obtain ⟨t, ht⟩ := (countsRank_iff hn 2).mp h2
    obtain ⟨r, hr⟩ := (countsRank_iff hn 3).mp h3
    exact hbetter .fullHouse hlt ⟨r, t, fun heq => by subst heq; omega, hr.ge, ht.ge⟩
  have hrow : CombinationType.straight.toNat < c.toNat → ¬ FiveInARow hand := fun hlt hr =>
    hbetter .straight hlt (((fiveInARow_iff_innerOnce h).mp hr).fiveConsecutive.forms_straight lowAceFlush)
  have hthree : CombinationType.threeOfAKind.toNat < c.toNat → ¬ CountsRank hand 3 := fun hlt h3 => by
    obtain ⟨r, hr⟩ := (countsRank_iff hn 3).mp h3
    exact hbetter .threeOfAKind hlt ⟨r, hr.ge⟩
  unfold combination
  cases c with
  | royalFlush =>
    obtain ⟨s, hs, hr⟩ := hright
    rw [if_pos ⟨s, (flushSuit_iff hn s).mpr hs, hr⟩]
  | straightFlush =>
    obtain ⟨s, hs⟩ := hform
    rw [if_neg, if_pos ((countsFlushSuit_iff hn lowAceFlush).mpr ⟨s, hs.five_le⟩)]
    intro ⟨t, _, ht⟩
    exact hbetter .royalFlush (by decide) ⟨t, ht⟩
  | fourOfAKind =>
    have hs := (not_countsFlushSuit_iff hn).mpr hright
    rw [if_neg (not_royal_of_suits hs), if_neg hs, if_pos ((countsRank_four_iff hn lowAceFlush).mpr hform)]
  | fullHouse =>
    obtain ⟨hs, t, ht⟩ := hright
    have hs := (not_countsFlushSuit_iff hn).mpr hs
    obtain ⟨r, -, -, hr, -⟩ := hform
    have hr' : rankCount hand r ≠ 4 := fun h4 => hbetter .fourOfAKind (by decide) ⟨r, h4.ge⟩
    have hr3 : rankCount hand r = 3 := by have := rankCount_le hn r; omega
    rw [if_neg (not_royal_of_suits hs), if_neg hs, if_neg (hfour (by decide)),
      if_pos ⟨(countsRank_iff hn 2).mpr ⟨t, ht⟩, (countsRank_iff hn 3).mpr ⟨r, hr3⟩⟩]
  | flush => exact hright.elim
  | straight =>
    have hs := hsuit (by decide)
    rw [if_neg (not_royal_of_suits hs), if_neg hs, if_neg (hfour (by decide)), if_neg (hfull (by decide)),
      if_pos ((fiveInARow_iff_innerOnce h).mpr hright)]
  | threeOfAKind => exact hright.elim
  | twoPair =>
    obtain ⟨r, hr, hne⟩ := hright
    have hs := hsuit (by decide)
    rw [if_neg (not_royal_of_suits hs), if_neg hs, if_neg (hfour (by decide)), if_neg (hfull (by decide)),
      if_neg (hrow (by decide)), if_neg (hthree (by decide)), if_pos ⟨r, (firstPair_iff hn r).mpr hr, hne⟩]
  | pair =>
    have hs := hsuit (by decide)
    rw [if_neg (not_royal_of_suits hs), if_neg hs, if_neg (hfour (by decide)), if_neg (hfull (by decide)),
      if_neg (hrow (by decide)), if_neg (hthree (by decide)), if_neg,
      if_pos ((countsRank_iff hn 2).mpr ⟨.four, hright⟩)]
    intro ⟨r, hr, hne⟩
    have h2 := ((firstPair_iff hn r).mp hr).1
    exact hbetter .twoPair (by decide) ⟨r, .four, hne, h2.ge, hright.ge⟩
  | highCard =>
    have hs := hsuit (by decide)
    have hpair : ∀ r, rankCount hand r ≠ 2 := fun r hr => hbetter .pair (by decide) ⟨r, hr.ge⟩
    rw [if_neg (not_royal_of_suits hs), if_neg hs, if_neg (hfour (by decide)), if_neg (hfull (by decide)),
      if_neg (hrow (by decide)), if_neg (hthree (by decide)), if_neg, if_neg]
    · rw [countsRank_iff hn]
      intro ⟨r, hr⟩
      exact hpair r hr
    · intro ⟨r, hr, _⟩
      exact hpair r ((firstPair_iff hn r).mp hr).1

/-- **When `Evaluate` returns the best combination** of an ascending hand
without duplicates: when the hand's best combination is one whose condition
(`EvaluatesRight`) the hand meets. -/
theorem evaluate_isBest_iff (lowAceFlush : Bool) (e : HandEvaluator) (hne : hand ≠ []) (hn : hand.Nodup)
    (h : Ascending hand) :
    (∃ c, e.result hand = .ok c ∧ IsBest lowAceFlush hand c) ↔
      ∃ c, IsBest lowAceFlush hand c ∧ EvaluatesRight hand c := by
  rw [e.result_eq hne]
  constructor
  · intro ⟨c, hc, hbest⟩
    obtain rfl : combination hand = c := Except.ok.inj hc
    exact ⟨_, hbest, evaluatesRight_of_isBest hn h hbest⟩
  · intro ⟨c, hbest, hright⟩
    exact ⟨c, by rw [combination_of_evaluatesRight hn h hbest hright], hbest⟩

end Best

theorem evaluate_isBest_iff_fours :
    (∃ c, HandEvaluator.reset.result [⟨.spades, .four⟩, ⟨.hearts, .four⟩] = .ok c ∧
        IsBest true [⟨.spades, .four⟩, ⟨.hearts, .four⟩] c) ↔
      ∃ c, IsBest true [⟨.spades, .four⟩, ⟨.hearts, .four⟩] c ∧
        EvaluatesRight [⟨.spades, .four⟩, ⟨.hearts, .four⟩] c :=
  evaluate_isBest_iff true _ (by decide) (by decide) (by decide)

/-- Five spades out of order of rank. -/
def spadeFlush : List Card :=
  [⟨.spades, .two⟩, ⟨.spades, .four⟩, ⟨.spades, .six⟩, ⟨.spades, .eighth⟩, ⟨.spades, .ten⟩]

/-- A flush is reported as a straight flush. -/
theorem evaluate_overstates_spadeFlush :
    spadeFlush ≠ [] ∧ spadeFlush.Nodup ∧ Ascending spadeFlush ∧
      HandEvaluator.reset.result spadeFlush = .ok .straightFlush ∧
      ∀ lowAceFlush, ¬ ∃ c, HandEvaluator.reset.result spadeFlush = .ok c ∧
        IsBest lowAceFlush spadeFlush c := by
  have hresult : HandEvaluator.reset.result spadeFlush = .ok .straightFlush := by
    rw [HandEvaluator.result_eq _ (by decide)]; decide
  refine ⟨by decide, by decide, by decide, hresult, fun lowAceFlush => ?_⟩
  intro ⟨c, hc, hbest⟩
  rw [hresult] at hc
  obtain rfl : CombinationType.straightFlush = c := Except.ok.inj hc
  revert hbest
  cases lowAceFlush <;> exact fun hbest => absurd hbest.1 (by decide)

end PokerEngine
