/-
How far the streak loops of `CheckStraight` and `CheckStraightFlush` count
(`hand_evaluator.cc`).

The loops run over lists of any length with counters of 8 bits. After each
iteration the counters are what unbounded ones would be (`Streak.counts_after`):
the steps of the streak that ends at the previous card, and of the longest
streak so far. Every step of a streak raises the rank, so neither counter
passes the number of the highest rank.
-/
import PokerEngine.IndexedHandEvaluator

namespace PokerEngine

/-- The loop state after `k` iterations; the cards are `first` and `rest`. -/
def Streak.after (first : Card) (rest : List Card) (k : Nat) : Streak :=
  (rest.take k).foldl Streak.next (.start first)

/-- How many successive `+1` rank steps the contiguous blocks of the cards
make, block by block. -/
def streakLengths (cards : List Card) : Set Nat :=
  {n | ∃ block, block <:+: cards ∧ block.IsChain Card.Above ∧ block.length = n + 1}

/-- The same for the blocks at the end of the cards. -/
def endStreakLengths (cards : List Card) : Set Nat :=
  {n | ∃ block, block <:+ cards ∧ block.IsChain Card.Above ∧ block.length = n + 1}

/-- What the loop state says of the cards read so far, and that the next
increment of the counter does not wrap. -/
structure Streak.Counts (s : Streak) (cards : List Card) : Prop where
  previous : cards.getLast?.map Card.rank = some s.previousRank
  current : IsGreatest (endStreakLengths cards) s.consecutiveCounter.toNat
  longest : IsGreatest (streakLengths cards) s.maxConsecutiveCounter.toNat
  current_le_rank : s.consecutiveCounter.toNat ≤ s.previousRank.toNat
  current_le : s.consecutiveCounter.toNat ≤ 12
  longest_le : s.maxConsecutiveCounter.toNat ≤ 12
  increment : (s.consecutiveCounter + 1).toNat = s.consecutiveCounter.toNat + 1

theorem Card.Above.rank_lt {c d : Card} (h : c.Above d) : c.rank.toNat < d.rank.toNat := by
  unfold Card.Above at h
  omega

theorem Streak.counts (first : Card) (rest : List Card) :
    (rest.foldl Streak.next (.start first)).Counts (first :: rest) := by
  have hag := Streak.agrees first rest
  have hrank : (rest.foldl Streak.next (.start first)).consecutiveCounter.toNat ≤
      (rest.foldl Streak.next (.start first)).previousRank.toNat := by
    rw [hag.current, hag.previous]
    exact Streak.current_le_rank first rest
  have hlt := (rest.foldl Streak.next (.start first)).previousRank.toNat_lt
  refine { previous := ?_, current := ?_, longest := ?_, current_le_rank := hrank, current_le := by omega,
           longest_le := ?_, increment := ?_ }
  · rw [ChainScan.previous_scan Card.Above first rest, hag.previous]
    rfl
  · rw [hag.current]
    exact ChainScan.current_isGreatest Card.Above first rest
  · rw [hag.longest]
    exact ChainScan.longest_isGreatest Card.Above first rest
  · rw [hag.longest]
    exact ChainScan.longest_le Card.Above (fun _ _ => Card.Above.rank_lt)
      (fun c => Nat.le_of_lt_succ c.rank.toNat_lt) first rest
  · rw [UInt8.toNat_add]
    exact Nat.mod_eq_of_lt (by simp; omega)

/-- After any number of iterations. -/
theorem Streak.counts_after (first : Card) (rest : List Card) (k : Nat) :
    (Streak.after first rest k).Counts (first :: rest.take k) :=
  Streak.counts first (rest.take k)

theorem Streak.after_length (first : Card) (rest : List Card) :
    Streak.after first rest rest.length = rest.foldl Streak.next (.start first) := by
  rw [Streak.after, List.take_length]

open HandEvaluator.Indexed in
/-- **What the two streak loops count**, for a list of cards in any order: over
the hand itself, and over the cards of one suit. -/
theorem streakLoops_count (first : Card) (rest : List Card) :
    straightStreak (first :: rest) = .ok (Streak.after first rest rest.length) ∧
      (∀ suit hand, (hand.filter fun card => card.suit = suit) = first :: rest →
        ∃ ending, flushStreak suit hand = .ok (Streak.after first rest rest.length, ending)) ∧
      IsGreatest (streakLengths (first :: rest))
        (Streak.after first rest rest.length).maxConsecutiveCounter.toNat ∧
      ∀ k, (Streak.after first rest k).Counts (first :: rest.take k) := by
  refine ⟨?_, fun suit hand hcards => ?_, ?_, Streak.counts_after first rest⟩
  · rw [straightStreak_cons, Streak.after_length]
  · rw [flushStreak_cons hcards, Streak.after_length]
    refine ⟨(rest.foldl (flushNext suit) (.start first, default)).2, ?_⟩
    rw [← foldl_flushNext suit rest (.start first, default)]
  · rw [Streak.after_length]
    exact (Streak.counts first rest).longest

end PokerEngine
