/-
How the order in which a hand is listed enters `Evaluate`.

The counters, and so all checkers but `CheckStraight`, are blind to the order
(`combination_perm`); `CheckStraight` compares neighbours. Two listings of one
hand are told apart exactly when no checker before `CheckStraight` answers and
five neighbours rise by one in only one of them.
-/
import PokerEngine.HandEvaluatorFacts

namespace PokerEngine

open Card (Suit Rank)

/-- The combination `Evaluate` returns. -/
def HandEvaluator.result (e : HandEvaluator) (hand : List Card) : Except OutOfRange CombinationType :=
  (e.evaluate hand).map Prod.snd

theorem HandEvaluator.result_eq (e : HandEvaluator) {hand : List Card} (hne : hand ≠ []) :
    e.result hand = .ok (combination hand) := by
  rw [result, evaluate_eq e hne]; rfl

/-- The checkers before `CheckStraight` answer: a suit is counted more than
four times, a rank four times, or one rank twice and one three times. -/
def CountsDecide (hand : List Card) : Prop :=
  CountsFlushSuit hand ∨ CountsRank hand 4 ∨ CountsRank hand 2 ∧ CountsRank hand 3

section Perm

variable {hand hand' : List Card} (hp : hand.Perm hand')
include hp

theorem suitCount_perm (s : Suit) : suitCount hand s = suitCount hand' s := hp.countP_eq _

theorem rankCount_perm (r : Rank) : rankCount hand r = rankCount hand' r := hp.countP_eq _

theorem flushSuit_perm (s : Suit) : FlushSuit hand s ↔ FlushSuit hand' s := by
  simp only [FlushSuit, suitCount_perm hp]

theorem royalIn_perm (s : Suit) : RoyalIn hand s ↔ RoyalIn hand' s := by
  simp only [RoyalIn, hp.mem_iff]

theorem firstPair_perm (r : Rank) : FirstPair hand r ↔ FirstPair hand' r := by
  simp only [FirstPair, rankCount_perm hp]

theorem countsFlushSuit_perm : CountsFlushSuit hand ↔ CountsFlushSuit hand' := by
  simp only [CountsFlushSuit, suitCount_perm hp]

theorem countsRank_perm (n : Nat) : CountsRank hand n ↔ CountsRank hand' n := by
  simp only [CountsRank, rankCount_perm hp]

/-- Two listings of one hand that agree on five neighbours get one answer. -/
theorem combination_perm (h : FiveInARow hand ↔ FiveInARow hand') : combination hand = combination hand' := by
  simp only [combination, flushSuit_perm hp, royalIn_perm hp, firstPair_perm hp, countsFlushSuit_perm hp,
    countsRank_perm hp, h]

omit hp in
/-- Where the counts do not decide, the answer is a straight exactly when five
neighbours rise by one. -/
theorem combination_straight_iff (h : ¬ CountsDecide hand) : combination hand = .straight ↔ FiveInARow hand := by
  simp only [CountsDecide, not_or] at h
  obtain ⟨hsuit, hfour, hfull⟩ := h
  simp only [combination, not_royal_of_suits hsuit, hsuit, hfour, hfull, if_false]
  by_cases hrow : FiveInARow hand
  · simp only [hrow, if_true]
  · simp only [hrow, if_false, iff_false]
    split_ifs <;> simp

/-- Where the counts decide, five neighbours do not matter. -/
theorem combination_perm_of_countsDecide (h : CountsDecide hand) : combination hand = combination hand' := by
  simp only [combination, flushSuit_perm hp, royalIn_perm hp, countsFlushSuit_perm hp, countsRank_perm hp,
    CountsDecide] at h ⊢
  rcases h with h | h | h <;> simp only [h, and_self, if_true]

end Perm

/-- **When two listings of a hand evaluate alike**, for evaluators with any
histories: when the counts decide, or when five neighbours rise by one in both
listings or in neither. -/
theorem result_eq_iff_of_perm (e e' : HandEvaluator) {hand hand' : List Card} (hne : hand ≠ [])
    (hp : hand.Perm hand') :
    e.result hand = e'.result hand' ↔ CountsDecide hand ∨ (FiveInARow hand ↔ FiveInARow hand') := by
  have hne' : hand' ≠ [] := fun h => hne (by rw [h] at hp; exact hp.eq_nil)
  rw [e.result_eq hne, e'.result_eq hne', Except.ok.injEq]
  by_cases h : CountsDecide hand
  · simp only [h, true_or, iff_true]
    exact combination_perm_of_countsDecide hp h
  · have h' : ¬ CountsDecide hand' := by
      simpa only [CountsDecide, countsFlushSuit_perm hp, countsRank_perm hp] using h
    simp only [h, false_or]
    constructor
    · intro heq
      rw [← combination_straight_iff h, ← combination_straight_iff h', heq]
    · exact combination_perm hp

theorem result_eq_iff_of_perm_pair :
    HandEvaluator.reset.result [⟨.spades, .two⟩, ⟨.clubs, .two⟩] =
        HandEvaluator.reset.result [⟨.clubs, .two⟩, ⟨.spades, .two⟩] ↔
      CountsDecide [⟨.spades, .two⟩, ⟨.clubs, .two⟩] ∨
        (FiveInARow [⟨.spades, .two⟩, ⟨.clubs, .two⟩] ↔ FiveInARow [⟨.clubs, .two⟩, ⟨.spades, .two⟩]) :=
  result_eq_iff_of_perm _ _ (by decide) (.swap _ _ [])

/-- Two to six, and the same cards with the three first: a straight and a high
card. -/
theorem result_depends_on_order :
    ([⟨.spades, .two⟩, ⟨.spades, .three⟩, ⟨.clubs, .four⟩, ⟨.hearts, .five⟩, ⟨.spades, .six⟩] : List Card).Perm
        [⟨.spades, .three⟩, ⟨.spades, .two⟩, ⟨.clubs, .four⟩, ⟨.hearts, .five⟩, ⟨.spades, .six⟩] ∧
      HandEvaluator.reset.result
          [⟨.spades, .two⟩, ⟨.spades, .three⟩, ⟨.clubs, .four⟩, ⟨.hearts, .five⟩, ⟨.spades, .six⟩] ≠
        HandEvaluator.reset.result
          [⟨.spades, .three⟩, ⟨.spades, .two⟩, ⟨.clubs, .four⟩, ⟨.hearts, .five⟩, ⟨.spades, .six⟩] := by
  refine ⟨.swap _ _ _, ?_⟩
  rw [HandEvaluator.result_eq _ (by decide), HandEvaluator.result_eq _ (by decide)]
  decide

end PokerEngine
