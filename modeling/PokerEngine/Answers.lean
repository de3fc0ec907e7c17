/-
The answers of `Evaluate`, by the best combination of the hand.

`answers_iff` lists them for ascending hands without duplicates of any length,
`sevenCardAnswers_iff` for those of at most seven cards: each answer listed is
given to some hand, and no other answer to any.
-/
import PokerEngine.Combination
import PokerEngine.Renaming

namespace PokerEngine

open Card (Suit Rank Ascending)

/-- What `Evaluate` may return for a hand with this best combination. -/
def answers : CombinationType → List CombinationType
  | .royalFlush => [.royalFlush, .straightFlush]
  | .straightFlush => [.straightFlush]
  | .fourOfAKind => [.straightFlush, .fourOfAKind]
  | .fullHouse => [.straightFlush, .fourOfAKind, .fullHouse, .straight]
  | .flush => [.straightFlush]
  | .straight => [.fourOfAKind, .straight, .twoPair, .pair, .highCard]
  | .threeOfAKind => [.fourOfAKind]
  | .twoPair => [.twoPair, .pair]
  | .pair => [.twoPair, .pair]
  | .highCard => [.highCard]

/-- The same for hands of at most seven cards. -/
def sevenCardAnswers : CombinationType → List CombinationType
  | .royalFlush => [.royalFlush]
  | .fourOfAKind => [.fourOfAKind]
  | .fullHouse => [.fourOfAKind, .fullHouse]
  | c => answers c

instance : Fintype CombinationType where
  elems := {.royalFlush, .straightFlush, .fourOfAKind, .fullHouse, .flush, .straight, .threeOfAKind, .twoPair,
    .pair, .highCard}
  complete c := by cases c <;> decide

instance (lowAceFlush : Bool) (hand : List Card) : DecidablePred (IsBest lowAceFlush hand) := fun _ => by
  unfold IsBest; infer_instance

/-! ## Nothing better than the best -/

section Best

variable {lowAceFlush : Bool} {hand : List Card} {b : CombinationType}

theorem IsBest.not_royal (h : IsBest lowAceFlush hand b) (hlt : 0 < b.toNat) :
    ¬ ∃ s, FlushSuit hand s ∧ RoyalIn hand s := by
  intro ⟨s, _, hs⟩
  exact h.2 .royalFlush hlt ⟨s, hs⟩

variable (hn : hand.Nodup)
include hn

theorem IsBest.not_suit (h : IsBest lowAceFlush hand b) (hlt : 4 < b.toNat) : ¬ CountsFlushSuit hand :=
  fun hs => h.2 .flush hlt ((countsFlushSuit_iff hn lowAceFlush).mp hs)

theorem IsBest.not_four (h : IsBest lowAceFlush hand b) (hlt : 2 < b.toNat) : ¬ CountsRank hand 4 :=
  fun hr => h.2 .fourOfAKind hlt ((countsRank_four_iff hn lowAceFlush).mp hr)

theorem IsBest.not_full (h : IsBest lowAceFlush hand b) (hlt : 3 < b.toNat) :
    ¬ (CountsRank hand 2 ∧ CountsRank hand 3) := by
  intro ⟨h2, h3⟩
  obtain ⟨t, ht⟩ := (countsRank_iff hn 2).mp h2
  obtain ⟨r, hr⟩ := (countsRank_iff hn 3).mp h3
  have hne : r ≠ t := fun heq => by
    subst heq
    omega
  exact h.2 .fullHouse hlt ⟨r, t, hne, hr.ge, ht.ge⟩

omit hn in
theorem IsBest.not_row (h : IsBest lowAceFlush hand b) (hasc : Ascending hand) (hlt : 5 < b.toNat) :
    ¬ FiveInARow hand :=
  fun hr => h.2 .straight hlt (((fiveInARow_iff_innerOnce hasc).mp hr).fiveConsecutive.forms_straight lowAceFlush)

theorem IsBest.not_three (h : IsBest lowAceFlush hand b) (hlt : 6 < b.toNat) : ¬ CountsRank hand 3 := by
  intro h3
  obtain ⟨r, hr⟩ := (countsRank_iff hn 3).mp h3
  exact h.2 .threeOfAKind hlt ⟨r, hr.ge⟩

theorem IsBest.not_pair (h : IsBest lowAceFlush hand b) (hlt : 8 < b.toNat) : ¬ CountsRank hand 2 := by
  intro h2
  obtain ⟨r, hr⟩ := (countsRank_iff hn 2).mp h2
  exact h.2 .pair hlt ⟨r, hr.ge⟩

/-- A rank held three times or more, with none held four times. -/
theorem countsRank_three {r : Rank} (hr : 3 ≤ rankCount hand r) (hfour : ¬ CountsRank hand 4) :
    CountsRank hand 3 := by
  rw [countsRank_iff hn] at hfour ⊢
  have hle := rankCount_le hn r
  have hne : rankCount hand r ≠ 4 := fun h => hfour ⟨r, h⟩
  exact ⟨r, by omega⟩

/-- A rank held twice or more, with none held three or four times. -/
theorem countsRank_two {r : Rank} (hr : 2 ≤ rankCount hand r) (hfour : ¬ CountsRank hand 4)
    (hthree : ¬ CountsRank hand 3) : CountsRank hand 2 := by
  rw [countsRank_iff hn] at hfour hthree ⊢
  have hle := rankCount_le hn r
  have hne : rankCount hand r ≠ 4 := fun h => hfour ⟨r, h⟩
  have hne' : rankCount hand r ≠ 3 := fun h => hthree ⟨r, h⟩
  exact ⟨r, by omega⟩

/-- No answer is missing. -/
theorem IsBest.combination_mem (h : IsBest lowAceFlush hand b) (hasc : Ascending hand) :
    combination hand ∈ answers b := by
  have hform := h.1
  unfold combination
  cases b with
  | royalFlush =>
    obtain ⟨s, hs⟩ := hform
    have hsuit := (countsFlushSuit_iff hn lowAceFlush).mpr ⟨s, hs.five_le⟩
    by_cases hroyal : ∃ s, FlushSuit hand s ∧ RoyalIn hand s
    · simp [hroyal, answers]
    · simp [hroyal, hsuit, answers]
  | straightFlush =>
    obtain ⟨s, hs⟩ := hform
    have hsuit := (countsFlushSuit_iff hn lowAceFlush).mpr ⟨s, hs.five_le⟩
    simp [h.not_royal (by decide), hsuit, answers]
  | fourOfAKind =>
    have hfour := (countsRank_four_iff hn lowAceFlush).mpr hform
    by_cases hsuit : CountsFlushSuit hand
    · simp [h.not_royal (by decide), hsuit, answers]
    · simp [h.not_royal (by decide), hsuit, hfour, answers]
  | fullHouse =>
    obtain ⟨r, t, _, hr, _⟩ := hform
    have hfour := h.not_four hn (by decide)
    have hthree := countsRank_three hn hr hfour
    by_cases hsuit : CountsFlushSuit hand
    · simp [h.not_royal (by decide), hsuit, answers]
    by_cases htwo : CountsRank hand 2
    · simp [h.not_royal (by decide), hsuit, hfour, htwo, hthree, answers]
    -- Two ranks held three times, and none twice.
    by_cases hrow : FiveInARow hand
    · simp [h.not_royal (by decide), hsuit, hfour, htwo, hrow, answers]
    · simp [h.not_royal (by decide), hsuit, hfour, htwo, hrow, hthree, answers]
  | flush =>
    have hsuit := (countsFlushSuit_iff hn lowAceFlush).mpr hform
    simp [h.not_royal (by decide), hsuit, answers]
  | straight =>
    have hsuit := h.not_suit hn (by decide)
    have hfour := h.not_four hn (by decide)
    have hfull := h.not_full hn (by decide)
    rw [if_neg (h.not_royal (by decide)), if_neg hsuit, if_neg hfour, if_neg hfull]
    split_ifs <;> simp [answers]
  | threeOfAKind =>
    obtain ⟨r, hr⟩ := hform
    have hfour := h.not_four hn (by decide)
    have hthree := countsRank_three hn hr hfour
    rw [if_neg (h.not_royal (by decide)), if_neg (h.not_suit hn (by decide)), if_neg hfour,
      if_neg (h.not_full hn (by decide)), if_neg (h.not_row hasc (by decide)), if_pos hthree]
    simp [answers]
  | twoPair =>
    obtain ⟨r, _, _, hr, _⟩ := hform
    have hfour := h.not_four hn (by decide)
    have hthree := h.not_three hn (by decide)
    have htwo := countsRank_two hn hr hfour hthree
    rw [if_neg (h.not_royal (by decide)), if_neg (h.not_suit hn (by decide)), if_neg hfour,
      if_neg (h.not_full hn (by decide)), if_neg (h.not_row hasc (by decide)), if_neg hthree, if_pos htwo]
    split_ifs <;> simp [answers]
  | pair =>
    obtain ⟨r, hr⟩ := hform
    have hfour := h.not_four hn (by decide)
    have hthree := h.not_three hn (by decide)
    have htwo := countsRank_two hn hr hfour hthree
    rw [if_neg (h.not_royal (by decide)), if_neg (h.not_suit hn (by decide)), if_neg hfour,
      if_neg (h.not_full hn (by decide)), if_neg (h.not_row hasc (by decide)), if_neg hthree, if_pos htwo]
    split_ifs <;> simp [answers]
  | highCard =>
    have htwo := h.not_pair hn (by decide)
    have hfirst : ¬ ∃ r, FirstPair hand r ∧ r ≠ .four := fun ⟨r, hr, _⟩ => htwo ⟨r, hr.1⟩
    rw [if_neg (h.not_royal (by decide)), if_neg (h.not_suit hn (by decide)), if_neg (h.not_four hn (by decide)),
      if_neg (h.not_full hn (by decide)), if_neg (h.not_row hasc (by decide)), if_neg (h.not_three hn (by decide)),
      if_neg hfirst, if_neg htwo]
    simp [answers]

end Best

/-! ## Each answer is given -/

/-- A hand for each answer: the best combination, the answer, the hand. -/
def samples : List (CombinationType × CombinationType × List Card) :=
  [(.royalFlush, .royalFlush,
      [⟨.spades, .ten⟩, ⟨.spades, .jack⟩, ⟨.spades, .queen⟩, ⟨.spades, .king⟩, ⟨.spades, .ace⟩]),
    (.royalFlush, .straightFlush,
      [⟨.spades, .two⟩, ⟨.spades, .three⟩, ⟨.spades, .four⟩, ⟨.spades, .six⟩, ⟨.spades, .eighth⟩,
        ⟨.hearts, .ten⟩, ⟨.hearts, .jack⟩, ⟨.hearts, .queen⟩, ⟨.hearts, .king⟩, ⟨.hearts, .ace⟩]),
    (.straightFlush, .straightFlush,
      [⟨.spades, .two⟩, ⟨.spades, .three⟩, ⟨.spades, .four⟩, ⟨.spades, .five⟩, ⟨.spades, .six⟩]),
    (.fourOfAKind, .straightFlush,
      [⟨.spades, .two⟩, ⟨.clubs, .two⟩, ⟨.diamonds, .two⟩, ⟨.hearts, .two⟩, ⟨.spades, .four⟩, ⟨.spades, .six⟩,
        ⟨.spades, .eighth⟩, ⟨.spades, .ten⟩]),
    (.fourOfAKind, .fourOfAKind, [⟨.spades, .two⟩, ⟨.clubs, .two⟩, ⟨.diamonds, .two⟩, ⟨.hearts, .two⟩]),
    (.fullHouse, .straightFlush,
      [⟨.spades, .two⟩, ⟨.clubs, .two⟩, ⟨.diamonds, .two⟩, ⟨.spades, .four⟩, ⟨.clubs, .four⟩, ⟨.spades, .six⟩,
        ⟨.spades, .eighth⟩, ⟨.spades, .ten⟩]),
    (.fullHouse, .fourOfAKind,
      [⟨.spades, .two⟩, ⟨.clubs, .two⟩, ⟨.diamonds, .two⟩, ⟨.spades, .three⟩, ⟨.clubs, .three⟩, ⟨.diamonds, .three⟩]),
    (.fullHouse, .fullHouse,
      [⟨.spades, .two⟩, ⟨.clubs, .two⟩, ⟨.diamonds, .two⟩, ⟨.spades, .three⟩, ⟨.clubs, .three⟩]),
    (.fullHouse, .straight,
      [⟨.spades, .two⟩, ⟨.clubs, .two⟩, ⟨.diamonds, .two⟩, ⟨.spades, .three⟩, ⟨.hearts, .four⟩, ⟨.hearts, .five⟩,
        ⟨.spades, .six⟩, ⟨.clubs, .six⟩, ⟨.diamonds, .six⟩]),
    (.flush, .straightFlush, spadeFlush),
    (.straight, .fourOfAKind,
      [⟨.spades, .two⟩, ⟨.spades, .three⟩, ⟨.clubs, .three⟩, ⟨.diamonds, .three⟩, ⟨.spades, .four⟩,
        ⟨.hearts, .five⟩, ⟨.spades, .six⟩]),
    (.straight, .straight,
      [⟨.spades, .two⟩, ⟨.spades, .three⟩, ⟨.spades, .four⟩, ⟨.hearts, .five⟩, ⟨.spades, .six⟩]),
    (.straight, .twoPair, pairInsideStraight),
    (.straight, .pair,
      [⟨.spades, .two⟩, ⟨.spades, .three⟩, ⟨.spades, .four⟩, ⟨.clubs, .four⟩, ⟨.hearts, .five⟩, ⟨.spades, .six⟩]),
    (.straight, .highCard,
      [⟨.spades, .two⟩, ⟨.spades, .three⟩, ⟨.spades, .four⟩, ⟨.hearts, .five⟩, ⟨.spades, .ace⟩]),
    (.threeOfAKind, .fourOfAKind, [⟨.spades, .two⟩, ⟨.clubs, .two⟩, ⟨.diamonds, .two⟩]),
    (.twoPair, .twoPair, [⟨.spades, .two⟩, ⟨.clubs, .two⟩, ⟨.spades, .three⟩, ⟨.clubs, .three⟩]),
    (.twoPair, .pair, [⟨.spades, .four⟩, ⟨.clubs, .four⟩, ⟨.spades, .five⟩, ⟨.clubs, .five⟩]),
    (.pair, .twoPair, [⟨.spades, .two⟩, ⟨.clubs, .two⟩]),
    (.pair, .pair, [⟨.spades, .four⟩, ⟨.clubs, .four⟩]),
    (.highCard, .highCard, [⟨.spades, .two⟩])]

/-- The sample shows what it is for. -/
def Shows (x : CombinationType × CombinationType × List Card) : Prop :=
  x.2.2 ≠ [] ∧ x.2.2.Nodup ∧ Ascending x.2.2 ∧ IsBest true x.2.2 x.1 ∧ IsBest false x.2.2 x.1 ∧
    combination x.2.2 = x.2.1

instance : DecidablePred Shows := fun _ => by unfold Shows; infer_instance

theorem samples_show : ∀ x ∈ samples, Shows x := by decide +kernel

theorem Shows.isBest {x : CombinationType × CombinationType × List Card} (h : Shows x) (lowAceFlush : Bool) :
    IsBest lowAceFlush x.2.2 x.1 := by
  obtain ⟨_, _, _, htrue, hfalse, _⟩ := h
  cases lowAceFlush <;> assumption

/-- There is a sample for each answer, of seven cards if it is one of theirs. -/
theorem exists_sample : ∀ b c, c ∈ answers b → ∃ x ∈ samples, x.1 = b ∧ x.2.1 = c ∧
    (c ∈ sevenCardAnswers b → x.2.2.length ≤ 7) := by
  decide +kernel

/-- Some hand with the best combination `b`, of those that `P` admits, is answered `c`. -/
def Answered (lowAceFlush : Bool) (P : List Card → Prop) (e : HandEvaluator) (b c : CombinationType) : Prop :=
  ∃ hand : List Card, hand ≠ [] ∧ hand.Nodup ∧ Ascending hand ∧ P hand ∧ IsBest lowAceFlush hand b ∧
    e.result hand = .ok c

/-- **The answers of `Evaluate`** to ascending hands without duplicates. -/
theorem answers_iff (lowAceFlush : Bool) (e : HandEvaluator) (b c : CombinationType) :
    Answered lowAceFlush (fun _ => True) e b c ↔ c ∈ answers b := by
  constructor
  · intro ⟨hand, hne, hn, hasc, _, hbest, hresult⟩
    rw [e.result_eq hne, Except.ok.injEq] at hresult
    exact hresult ▸ hbest.combination_mem hn hasc
  · intro hc
    obtain ⟨x, hx, rfl, rfl, _⟩ := exists_sample b c hc
    have hshows := samples_show x hx
    exact ⟨x.2.2, hshows.1, hshows.2.1, hshows.2.2.1, trivial, hshows.isBest lowAceFlush,
      by rw [e.result_eq hshows.1, hshows.2.2.2.2.2]⟩

/-! ## Seven cards -/

theorem countP_add_three_le {α : Type} {p q u : α → Bool} (hpq : ∀ a, p a = true → q a = false)
    (hpu : ∀ a, p a = true → u a = false) (hqu : ∀ a, q a = true → u a = false) (l : List α) :
    l.countP p + l.countP q + l.countP u ≤ l.length := by
  induction l with
  | nil => simp
  | cons a l ih =>
    simp only [List.countP_cons, List.length_cons]
    have hone := hpq a
    have htwo := hpu a
    have hthree := hqu a
    cases hp : p a <;> cases hq : q a <;> cases hu : u a <;> simp_all <;> omega

section Seven

variable {lowAceFlush : Bool} {hand : List Card} {s : Suit} {r t : Rank} (hn : hand.Nodup)
include hn

/-- At most one card of rank `r` is of suit `s`. -/
theorem rankCount_le_other (s : Suit) (r : Rank) :
    rankCount hand r ≤ hand.countP (fun c => c.rank = r ∧ c.suit ≠ s) + 1 := by
  have hsplit : rankCount hand r = hand.countP (fun c => c.rank = r ∧ c.suit ≠ s) + hand.count ⟨s, r⟩ := by
    clear hn
    induction hand with
    | nil => rfl
    | cons c hand ih =>
      obtain ⟨cs, cr⟩ := c
      rw [rankCount_cons, ih, List.countP_cons, List.count_cons]
      by_cases hr : cr = r <;> by_cases hs : cs = s <;> simp [hr, hs] <;> omega
  have hcount := List.nodup_iff_count_le_one.mp hn ⟨s, r⟩
  omega

/-- A flush and four of a kind need eight cards. -/
theorem length_of_flush_four (hs : 5 ≤ suitCount hand s) (hr : 4 ≤ rankCount hand r) : 8 ≤ hand.length := by
  have hother := rankCount_le_other hn s r
  have hsum := countP_add_three_le (p := fun c : Card => decide (c.suit = s))
    (q := fun c => decide (c.rank = r ∧ c.suit ≠ s)) (u := fun _ => false) (by simp_all) (by simp) (by simp) hand
  change 5 ≤ hand.countP _ at hs
  omega

/-- A flush and a full house need eight cards. -/
theorem length_of_flush_full (hs : 5 ≤ suitCount hand s) (hne : r ≠ t) (hr : 3 ≤ rankCount hand r)
    (ht : 2 ≤ rankCount hand t) : 8 ≤ hand.length := by
  have hother := rankCount_le_other hn s r
  have hother' := rankCount_le_other hn s t
  have hsum := countP_add_three_le (p := fun c : Card => decide (c.suit = s))
    (q := fun c => decide (c.rank = r ∧ c.suit ≠ s)) (u := fun c => decide (c.rank = t ∧ c.suit ≠ s))
    (by simp_all) (by simp_all) (by simp_all) hand
  change 5 ≤ hand.countP _ at hs
  omega

omit hn in
theorem count_ranks (r : Rank) : (ranks hand).count r.toNat = rankCount hand r := by
  rw [ranks, List.count, List.countP_map, rankCount]
  exact List.countP_congr fun c _ => by simp

omit hn in
/-- A full house and five neighbours that rise by one need eight cards: the inner
three are of other ranks. -/
theorem length_of_full_row (hasc : Ascending hand) (hne : r ≠ t) (hr : 3 ≤ rankCount hand r)
    (ht : 2 ≤ rankCount hand t) (hrow : FiveInARow hand) : 8 ≤ hand.length := by
  obtain ⟨low, hmem, honce⟩ := (fiveInARow_iff_innerOnce hasc).mp hrow
  have hinner : ∀ x : Rank, 2 ≤ rankCount hand x → ∀ k < 4, 0 < k → x.toNat ≠ low + k := by
    intro x hx k hk hpos hxk
    have hcount := honce k hk hpos
    rw [← hxk, count_ranks] at hcount
    omega
  have hthree : 3 ≤ hand.countP fun c => low < c.rank.toNat ∧ c.rank.toNat < low + 4 := by
    choose f hf using fun k : Fin 3 => mem_ranks.mp (hmem (k.val + 1) (by omega))
    have hnodup : (List.ofFn f).Nodup := List.nodup_ofFn.mpr fun j k hjk => by
      have hrank := congrArg (·.rank.toNat) hjk
      simp only [(hf _).2] at hrank
      exact Fin.ext (by omega)
    have hsub : List.ofFn f ⊆ hand.filter fun c => low < c.rank.toNat ∧ c.rank.toNat < low + 4 := by
      intro c hc
      obtain ⟨k, rfl⟩ := (List.mem_ofFn' f c).mp hc
      refine List.mem_filter.mpr ⟨(hf k).1, ?_⟩
      rw [decide_eq_true_eq, (hf k).2]
      omega
    have hlen := (List.subperm_of_subset hnodup hsub).length_le
    rwa [List.length_ofFn, ← List.countP_eq_length_filter] at hlen
  have houter : ∀ x : Rank, 2 ≤ rankCount hand x → ¬ (low < x.toNat ∧ x.toNat < low + 4) := by
    intro x hx ⟨hlt, hlt'⟩
    exact hinner x hx (x.toNat - low) (by omega) (by omega) (by omega)
  have hsum := countP_add_three_le (p := fun c : Card => decide (c.rank = r)) (q := fun c => decide (c.rank = t))
    (u := fun c => decide (low < c.rank.toNat ∧ c.rank.toNat < low + 4))
    (fun c hc => by simp_all) (fun c hc => by simpa [of_decide_eq_true hc] using houter r (by omega))
    (fun c hc => by simpa [of_decide_eq_true hc] using houter t ht) hand
  change 3 ≤ hand.countP _ at hr
  change 2 ≤ hand.countP _ at ht
  omega

/-- A royal flush among at most nine cards is of the first suit with five. -/
theorem combination_royal (hlen : hand.length ≤ 9) (hroyal : RoyalIn hand s) : combination hand = .royalFlush := by
  have hs := hroyal.five_le
  have hmod := suitCount_mod hn
  have hfirst : FlushSuit hand s := by
    refine (flushSuit_iff hn s).mpr ⟨hs, fun x hx => ?_⟩
    by_contra hx'
    have heq : x = s := atMostOneFlushSuit_of_length_le hlen x s (by omega) (by omega)
    rw [heq] at hx
    omega
  exact if_pos ⟨s, hfirst, hroyal⟩

omit hn in
theorem countsFlushSuit_of_straightFlush (h : combination hand = .straightFlush) : CountsFlushSuit hand := by
  by_contra hsuit
  unfold combination at h
  rw [if_neg (not_royal_of_suits hsuit), if_neg hsuit] at h
  split_ifs at h

omit hn in
theorem fiveInARow_of_straight (h : combination hand = .straight) : FiveInARow hand := by
  by_contra hrow
  unfold combination at h
  rw [if_neg hrow] at h
  split_ifs at h

/-- A hand of at most seven cards has no room for the other answers. -/
theorem IsBest.combination_mem_seven {b : CombinationType} (h : IsBest lowAceFlush hand b) (hasc : Ascending hand)
    (hlen : hand.length ≤ 7) : combination hand ∈ sevenCardAnswers b := by
  have hmem := h.combination_mem hn hasc
  have hform := h.1
  have hflush : combination hand = .straightFlush → ∃ s, 5 ≤ suitCount hand s := fun hc =>
    (countsFlushSuit_iff hn lowAceFlush).mp (countsFlushSuit_of_straightFlush hc)
  cases b with
  | royalFlush =>
    obtain ⟨s, hs⟩ := hform
    simp [combination_royal hn (by omega) hs, sevenCardAnswers]
  | fourOfAKind =>
    obtain ⟨r, hr⟩ := hform
    have hne : combination hand ≠ .straightFlush := fun hc => by
      obtain ⟨s, hs⟩ := hflush hc
      have := length_of_flush_four hn hs hr
      omega
    simpa [answers, sevenCardAnswers, hne] using hmem
  | fullHouse =>
    obtain ⟨r, t, hrt, hr, ht⟩ := hform
    have hne : combination hand ≠ .straightFlush := fun hc => by
      obtain ⟨s, hs⟩ := hflush hc
      have := length_of_flush_full hn hs hrt hr ht
      omega
    have hne' : combination hand ≠ .straight := fun hc => by
      have := length_of_full_row hasc hrt hr ht (fiveInARow_of_straight hc)
      omega
    simpa [answers, sevenCardAnswers, hne, hne'] using hmem
  | straightFlush => exact hmem
  | flush => exact hmem
  | straight => exact hmem
  | threeOfAKind => exact hmem
  | twoPair => exact hmem
  | pair => exact hmem
  | highCard => exact hmem

end Seven

theorem sevenCardAnswers_subset : ∀ b c, c ∈ sevenCardAnswers b → c ∈ answers b := by decide

/-- **The answers of `Evaluate`** to hands of at most seven cards. -/
theorem sevenCardAnswers_iff (lowAceFlush : Bool) (e : HandEvaluator) (b c : CombinationType) :
    Answered lowAceFlush (·.length ≤ 7) e b c ↔ c ∈ sevenCardAnswers b := by
  constructor
  · intro ⟨hand, hne, hn, hasc, hlen, hbest, hresult⟩
    rw [e.result_eq hne, Except.ok.injEq] at hresult
    exact hresult ▸ hbest.combination_mem_seven hn hasc hlen
  · intro hc
    obtain ⟨x, hx, rfl, rfl, hlen⟩ := exists_sample b c (sevenCardAnswers_subset b c hc)
    have hshows := samples_show x hx
    exact ⟨x.2.2, hshows.1, hshows.2.1, hshows.2.2.1, hlen hc, hshows.isBest lowAceFlush,
      by rw [e.result_eq hshows.1, hshows.2.2.2.2.2]⟩

end PokerEngine
