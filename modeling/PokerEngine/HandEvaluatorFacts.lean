/-
What each checker reports, in terms of the hand.

`Evaluate` fills the two mappings anew, so a checker sees the number of cards
of each suit and rank modulo 256 (`suitCountMapping_get`,
`rankCountMapping_get`); `evaluate_eq` puts the nine checkers together for
every non-empty hand.
-/
import Mathlib.Order.WellFounded
import PokerEngine.Straight

namespace PokerEngine

open Card (Suit Rank)

/-- How many cards of the hand have suit `s`. -/
def suitCount (hand : List Card) (s : Suit) : Nat := hand.countP (·.suit = s)

/-- How many cards of the hand have rank `r`. -/
def rankCount (hand : List Card) (r : Rank) : Nat := hand.countP (·.rank = r)

theorem suitCount_cons (c : Card) (hand : List Card) (s : Suit) :
    suitCount (c :: hand) s = suitCount hand s + if c.suit = s then 1 else 0 := by
  simp [suitCount, List.countP_cons]

theorem rankCount_cons (c : Card) (hand : List Card) (r : Rank) :
    rankCount (c :: hand) r = rankCount hand r + if c.rank = r then 1 else 0 := by
  simp [rankCount, List.countP_cons]

namespace HandEvaluator

/-- The evaluator after the counting loop over `hand`. -/
def counted (hand : List Card) : HandEvaluator := hand.foldl count reset

theorem foldl_count_suit (hand : List Card) (e : HandEvaluator) (s : Suit) :
    (hand.foldl count e).suitCountMapping.get s = e.suitCountMapping.get s + UInt8.ofNat (suitCount hand s) := by
  induction hand generalizing e with
  | nil => simp [suitCount]
  | cons c hand ih =>
    rw [List.foldl_cons, ih, count, EnumIndexableArray.get_modify, suitCount_cons]
    by_cases hs : s = c.suit
    · subst hs; simp [UInt8.ofNat_add, UInt8.add_assoc, UInt8.add_comm 1]
    · simp [hs, Ne.symm hs]

theorem foldl_count_rank (hand : List Card) (e : HandEvaluator) (r : Rank) :
    (hand.foldl count e).rankCountMapping.get r = e.rankCountMapping.get r + UInt8.ofNat (rankCount hand r) := by
  induction hand generalizing e with
  | nil => simp [rankCount]
  | cons c hand ih =>
    rw [List.foldl_cons, ih, count, EnumIndexableArray.get_modify, rankCount_cons]
    by_cases hr : r = c.rank
    · subst hr; simp [UInt8.ofNat_add, UInt8.add_assoc, UInt8.add_comm 1]
    · simp [hr, Ne.symm hr]

theorem suitCountMapping_get (hand : List Card) (s : Suit) :
    (counted hand).suitCountMapping.get s = UInt8.ofNat (suitCount hand s) := by
  rw [counted, foldl_count_suit]; simp [reset]

theorem rankCountMapping_get (hand : List Card) (r : Rank) :
    (counted hand).rankCountMapping.get r = UInt8.ofNat (rankCount hand r) := by
  rw [counted, foldl_count_rank]; simp [reset]

theorem ofNat_eq_iff {n k : Nat} (hk : k < 256) : UInt8.ofNat n = UInt8.ofNat k ↔ n % 256 = k := by
  rw [← UInt8.toNat_inj, UInt8.toNat_ofNat', UInt8.toNat_ofNat', Nat.mod_eq_of_lt hk]

theorem four_lt_ofNat_iff {n : Nat} : UInt8.ofNat n > 4 ↔ 4 < n % 256 := by
  rw [gt_iff_lt, UInt8.lt_iff_toNat_lt, UInt8.toNat_ofNat']; rfl

end HandEvaluator

/-! ## What the counters show -/

/-- The first suit the evaluator counts more than four times. -/
def FlushSuit (hand : List Card) (s : Suit) : Prop :=
  4 < suitCount hand s % 256 ∧ ∀ t : Suit, t.toNat < s.toNat → ¬ 4 < suitCount hand t % 256

/-- Ten to ace of suit `s`. -/
def RoyalIn (hand : List Card) (s : Suit) : Prop :=
  ∀ r ∈ [Rank.ten, .jack, .queen, .king, .ace], (⟨s, r⟩ : Card) ∈ hand

/-- The first rank the evaluator counts twice. -/
def FirstPair (hand : List Card) (r : Rank) : Prop :=
  rankCount hand r % 256 = 2 ∧ ∀ t : Rank, t.toNat < r.toNat → ¬ rankCount hand t % 256 = 2

/-- Some suit is counted more than four times. -/
def CountsFlushSuit (hand : List Card) : Prop := ∃ s, 4 < suitCount hand s % 256

/-- Some rank is counted `n` times. -/
def CountsRank (hand : List Card) (n : Nat) : Prop := ∃ r, rankCount hand r % 256 = n

instance (hand s) : Decidable (FlushSuit hand s) := by unfold FlushSuit; infer_instance
instance (hand s) : Decidable (RoyalIn hand s) := by unfold RoyalIn; infer_instance
instance (hand r) : Decidable (FirstPair hand r) := by unfold FirstPair; infer_instance
instance (hand) : Decidable (CountsFlushSuit hand) := by unfold CountsFlushSuit; infer_instance
instance (hand n) : Decidable (CountsRank hand n) := by unfold CountsRank; infer_instance

theorem FlushSuit.countsFlushSuit {hand s} (h : FlushSuit hand s) : CountsFlushSuit hand := ⟨s, h.1⟩

theorem not_royal_of_suits {hand : List Card} (h : ¬ CountsFlushSuit hand) :
    ¬ ∃ s, FlushSuit hand s ∧ RoyalIn hand s := by
  intro ⟨s, hs, _⟩
  exact h hs.countsFlushSuit

/-- A suit counted five times is counted more than four times. -/
theorem not_five_of_not_countsFlushSuit {hand : List Card} (h : ¬ CountsFlushSuit hand) :
    ¬ ∃ s, suitCount hand s % 256 = 5 := by
  intro ⟨s, hs⟩
  exact h ⟨s, by omega⟩

theorem exists_firstPair {hand : List Card} (h : CountsRank hand 2) : ∃ r, FirstPair hand r := by
  obtain ⟨r, hr, hmin⟩ := (measure Rank.toNat).wf.has_min {r | rankCount hand r % 256 = 2} h
  exact ⟨r, hr, fun t ht hcount => hmin t hcount ht⟩

theorem FirstPair.unique {hand : List Card} {r t : Rank} (hr : FirstPair hand r) (ht : FirstPair hand t) : r = t := by
  have h₁ : ¬ r.toNat < t.toNat := fun hlt => ht.2 r hlt hr.1
  have h₂ : ¬ t.toNat < r.toNat := fun hlt => hr.2 t hlt ht.1
  exact Rank.toNat_injective (by omega)

namespace HandEvaluator

theorem returnEnumFor_flush_some (hand : List Card) (s : Suit) :
    (counted hand).potentialFlushSuit = some s ↔ FlushSuit hand s := by
  simp only [potentialFlushSuit, EnumIndexableArray.returnEnumFor_some, suitCountMapping_get,
    decide_eq_true_eq, decide_eq_false_iff_not, four_lt_ofNat_iff]
  rfl

theorem potentialFlushSuit_none (hand : List Card) :
    (counted hand).potentialFlushSuit = none ↔ ¬ CountsFlushSuit hand := by
  simp only [potentialFlushSuit, EnumIndexableArray.returnEnumFor_none, suitCountMapping_get,
    decide_eq_false_iff_not, four_lt_ofNat_iff]
  simp [CountsFlushSuit]

/-- Whether a rank is counted `n` times, as the checkers ask. -/
theorem returnEnumFor_rank_isSome (hand : List Card) {n : Nat} (hn : n < 256) :
    ((counted hand).rankCountMapping.returnEnumFor fun value => value == UInt8.ofNat n).isSome = true ↔
      CountsRank hand n := by
  simp only [EnumIndexableArray.returnEnumFor_isSome, rankCountMapping_get, beq_iff_eq, ofNat_eq_iff hn]
  rfl

theorem checkRoyalFlush_eq (hand : List Card) :
    checkRoyalFlush (counted hand) hand =
      .ok (if ∃ s, FlushSuit hand s ∧ RoyalIn hand s then some .royalFlush else none) := by
  unfold checkRoyalFlush
  cases hs : (counted hand).potentialFlushSuit with
  | none =>
    have hnone := (potentialFlushSuit_none hand).mp hs
    rw [if_neg]
    intro ⟨s, h, _⟩
    exact hnone h.countsFlushSuit
  | some s =>
    have hflush := (returnEnumFor_flush_some hand s).mp hs
    have huniq : (∃ t, FlushSuit hand t ∧ RoyalIn hand t) ↔ RoyalIn hand s := by
      constructor
      · intro ⟨t, ht, hroyal⟩
        rw [← returnEnumFor_flush_some, hs] at ht
        obtain rfl : s = t := Option.some.inj ht
        exact hroyal
      · exact fun h => ⟨s, hflush, h⟩
    have hcontains : (decide ((⟨s, .ace⟩ : Card) ∈ hand) && decide ((⟨s, .king⟩ : Card) ∈ hand) &&
        decide ((⟨s, .queen⟩ : Card) ∈ hand) && decide ((⟨s, .jack⟩ : Card) ∈ hand) &&
        decide ((⟨s, .ten⟩ : Card) ∈ hand)) = true ↔ RoyalIn hand s := by
      simp only [RoyalIn, Bool.and_eq_true, decide_eq_true_eq, List.mem_cons, List.not_mem_nil,
        or_false, forall_eq_or_imp, forall_eq]
      tauto
    simp only [hcontains, huniq]

/-- The filtered view is not empty where the checker reads its first card. -/
theorem checkStraightFlush_eq (hand : List Card) :
    checkStraightFlush (counted hand) hand =
      .ok (if CountsFlushSuit hand then some .straightFlush else none) := by
  unfold checkStraightFlush
  cases hs : (counted hand).potentialFlushSuit with
  | none => rw [if_neg ((potentialFlushSuit_none hand).mp hs)]
  | some s =>
    have hflush := (returnEnumFor_flush_some hand s).mp hs
    simp only [if_pos hflush.countsFlushSuit]
    split
    · next hnil =>
      have hzero : suitCount hand s = 0 := by
        rw [suitCount, List.countP_eq_length_filter, hnil]; rfl
      have := hflush.1
      rw [hzero] at this
      exact absurd this (by decide)
    · rfl

theorem checkFourOfAKind_eq (hand : List Card) :
    checkFourOfAKind (counted hand) hand =
      .ok (if CountsRank hand 4 then some .fourOfAKind else none) := by
  unfold checkFourOfAKind
  simp only [← returnEnumFor_rank_isSome hand (n := 4) (by decide)]
  rfl

theorem checkThreeOfAKind_eq (hand : List Card) :
    checkThreeOfAKind (counted hand) hand =
      .ok (if CountsRank hand 3 then some .fourOfAKind else none) := by
  unfold checkThreeOfAKind
  simp only [← returnEnumFor_rank_isSome hand (n := 3) (by decide)]
  rfl

theorem checkPair_eq (hand : List Card) :
    checkPair (counted hand) hand = .ok (if CountsRank hand 2 then some .pair else none) := by
  unfold checkPair
  simp only [← returnEnumFor_rank_isSome hand (n := 2) (by decide)]
  rfl

theorem checkFullHouse_eq (hand : List Card) :
    checkFullHouse (counted hand) hand =
      .ok (if CountsRank hand 2 ∧ CountsRank hand 3 then some .fullHouse else none) := by
  unfold checkFullHouse
  rw [checkPair_eq, checkThreeOfAKind_eq]
  by_cases h2 : CountsRank hand 2 <;> by_cases h3 : CountsRank hand 3 <;> simp [h2, h3] <;> rfl

/-- A count of five is a count above four. -/
theorem checkFlush_eq (hand : List Card) :
    checkFlush (counted hand) hand =
      .ok (if ∃ s, suitCount hand s % 256 = 5 then some .flush else none) := by
  unfold checkFlush
  have h : ((counted hand).suitCountMapping.returnEnumFor fun value => value == 5).isSome = true ↔
      ∃ s, suitCount hand s % 256 = 5 := by
    simp only [EnumIndexableArray.returnEnumFor_isSome, suitCountMapping_get, beq_iff_eq]
    exact exists_congr fun s => ofNat_eq_iff (k := 5) (by decide)
  simp only [h]

/-- The second search fails exactly when the first pair's rank is numbered 2,
the count it looks for. -/
theorem checkTwoPair_eq (hand : List Card) :
    checkTwoPair (counted hand) hand =
      .ok (if ∃ r, FirstPair hand r ∧ r ≠ .four then some .twoPair else none) := by
  unfold checkTwoPair
  have hsome : ∀ r, ((counted hand).rankCountMapping.returnEnumFor fun value => value == 2) = some r ↔
      FirstPair hand r := by
    intro r
    simp only [EnumIndexableArray.returnEnumFor_some, rankCountMapping_get, beq_iff_eq, beq_eq_false_iff_ne]
    simp only [ne_eq, show (2 : UInt8) = UInt8.ofNat 2 from rfl, ofNat_eq_iff (k := 2) (by decide)]
    rfl
  cases hr : (counted hand).rankCountMapping.returnEnumFor fun value => value == 2 with
  | none =>
    rw [if_neg]
    intro ⟨r, h, _⟩
    rw [(hsome r).mpr h] at hr
    cases hr
  | some r =>
    have hfirst := (hsome r).mp hr
    have huniq : (∃ t, FirstPair hand t ∧ t ≠ .four) ↔ r ≠ .four := by
      constructor
      · intro ⟨t, ht, hne⟩
        rw [← hsome, hr] at ht
        obtain rfl : r = t := Option.some.inj ht
        exact hne
      · exact fun h => ⟨r, hfirst, h⟩
    have hsecond : ((counted hand).rankCountMapping.returnEnumFor fun value =>
        if value == UInt8.ofNat r.toNat then false else value == 2).isSome = true ↔ r ≠ .four := by
      rw [EnumIndexableArray.returnEnumFor_isSome]
      have htwo : (2 : UInt8) = UInt8.ofNat r.toNat ↔ r = .four := by
        rw [← UInt8.toNat_inj, UInt8.toNat_ofNat', Nat.mod_eq_of_lt (by have := r.toNat_lt; omega)]
        exact ⟨fun h => Rank.toNat_injective h.symm, fun h => by rw [h]; rfl⟩
      constructor
      · rintro ⟨t, ht⟩ rfl
        split at ht
        · cases ht
        · next hne => exact hne (by rw [beq_iff_eq.mp ht, ← htwo.mpr rfl]; rfl)
      · intro hne
        refine ⟨r, ?_⟩
        have hcount : (counted hand).rankCountMapping.get r = 2 := by
          rw [rankCountMapping_get]
          exact (ofNat_eq_iff (k := 2) (by decide)).mpr hfirst.1
        rw [hcount, if_neg fun h => hne (htwo.mp (beq_iff_eq.mp h))]
        rfl
    simp only [huniq, hsecond]

end HandEvaluator

/-! ## The whole evaluation -/

/-- What `Evaluate` answers for a non-empty hand, checker by checker. The flush
checker is never reached with a suit counted five times. -/
def combination (hand : List Card) : CombinationType :=
  if ∃ s, FlushSuit hand s ∧ RoyalIn hand s then .royalFlush
  else if CountsFlushSuit hand then .straightFlush
  else if CountsRank hand 4 then .fourOfAKind
  else if CountsRank hand 2 ∧ CountsRank hand 3 then .fullHouse
  else if FiveInARow hand then .straight
  else if CountsRank hand 3 then .fourOfAKind
  else if ∃ r, FirstPair hand r ∧ r ≠ .four then .twoPair
  else if CountsRank hand 2 then .pair
  else .highCard

theorem HandEvaluator.dispatch_cons {e : HandEvaluator} {hand : List Card} {check : CheckFunction}
    {checkers : List CheckFunction} {p : Prop} [Decidable p] {c : CombinationType}
    (h : check e hand = .ok (if p then some c else none)) :
    dispatch e hand (check :: checkers) = if p then .ok c else dispatch e hand checkers := by
  simp only [dispatch, h]
  split <;> rfl

open HandEvaluator in
theorem dispatch_eq {hand : List Card} (hne : hand ≠ []) :
    dispatch (counted hand) hand checkerFunctions = .ok (combination hand) := by
  rw [checkerFunctions, dispatch_cons (checkRoyalFlush_eq hand), dispatch_cons (checkStraightFlush_eq hand),
    dispatch_cons (checkFourOfAKind_eq hand), dispatch_cons (checkFullHouse_eq hand),
    dispatch_cons (checkFlush_eq hand), dispatch_cons (checkStraight_eq _ hne),
    dispatch_cons (checkThreeOfAKind_eq hand), dispatch_cons (checkTwoPair_eq hand),
    dispatch_cons (checkPair_eq hand), dispatch, combination]
  by_cases hsuit : CountsFlushSuit hand
  · simp only [hsuit, if_true, apply_ite Except.ok]
  · simp only [hsuit, not_five_of_not_countsFlushSuit hsuit, if_false, apply_ite Except.ok]

/-- **`Evaluate` on a non-empty hand**, whatever the evaluator held before. -/
theorem evaluate_eq (e : HandEvaluator) {hand : List Card} (hne : hand ≠ []) :
    e.evaluate hand = .ok (HandEvaluator.counted hand, combination hand) := by
  have h := dispatch_eq hne
  unfold HandEvaluator.evaluate
  simp only [← show HandEvaluator.counted hand = hand.foldl HandEvaluator.count .reset from rfl, h]
  rfl

end PokerEngine
