/-
Renaming the suits, or the ranks, of a hand.

Suits enter `Evaluate` in two ways: how many cards have each, and which suit
comes first in the enumeration among those counted more than four times. When
at most one suit has more than four cards there is no choice to make, and the
answer does not depend on what the suits are called: `Evaluate` returns the same
combination for every hand but the empty one, for which it returns none
(`result_renameSuits`).
-/
import PokerEngine.HandOrder

namespace PokerEngine

open Card (Suit Rank)

/-- Every card of suit `s` becomes one of suit `σ s`, in place. -/
def renameSuits (σ : Equiv.Perm Suit) (hand : List Card) : List Card := hand.map fun c => ⟨σ c.suit, c.rank⟩

/-- Every card of rank `r` becomes one of rank `π r`, in place. -/
def renameRanks (π : Equiv.Perm Rank) (hand : List Card) : List Card := hand.map fun c => ⟨c.suit, π c.rank⟩

/-- At most one suit has more than four cards. -/
def AtMostOneFlushSuit (hand : List Card) : Prop :=
  ∀ s t, 4 < suitCount hand s → 4 < suitCount hand t → s = t

instance (hand) : Decidable (AtMostOneFlushSuit hand) := by unfold AtMostOneFlushSuit; infer_instance

theorem rankCount_renameRanks (π : Equiv.Perm Rank) (hand : List Card) (r : Rank) :
    rankCount (renameRanks π hand) (π r) = rankCount hand r := by
  rw [rankCount, renameRanks, List.countP_map]
  exact List.countP_congr fun c _ => by simp

theorem nodup_renameRanks (π : Equiv.Perm Rank) {hand : List Card} (h : hand.Nodup) :
    (renameRanks π hand).Nodup :=
  h.map fun c d hcd => by cases c; cases d; simpa using hcd

/-- Two suits with more than four cards each need ten cards. -/
theorem atMostOneFlushSuit_of_length_le {hand : List Card} (h : hand.length ≤ 9) : AtMostOneFlushSuit hand := by
  intro s t hs ht
  by_contra hne
  have hsplit : suitCount hand s + suitCount hand t ≤ hand.length := by
    clear h hs ht
    induction hand with
    | nil => simp [suitCount]
    | cons c hand ih =>
      rw [suitCount_cons, suitCount_cons, List.length_cons]
      have hone : ¬ (c.suit = s ∧ c.suit = t) := fun h => hne (h.1 ▸ h.2)
      split_ifs with hs ht
      · exact absurd ⟨hs, ht⟩ hone
      all_goals omega
  omega

section Suits

variable (σ : Equiv.Perm Suit) (hand : List Card)

theorem suitCount_renameSuits (s : Suit) : suitCount (renameSuits σ hand) (σ s) = suitCount hand s := by
  rw [suitCount, renameSuits, List.countP_map]
  exact List.countP_congr fun c _ => by simp

theorem rankCount_renameSuits (r : Rank) : rankCount (renameSuits σ hand) r = rankCount hand r := by
  rw [rankCount, renameSuits, List.countP_map]
  rfl

theorem mem_renameSuits (s : Suit) (r : Rank) :
    (⟨σ s, r⟩ : Card) ∈ renameSuits σ hand ↔ (⟨s, r⟩ : Card) ∈ hand := by
  simp only [renameSuits, List.mem_map, Card.mk.injEq, EmbeddingLike.apply_eq_iff_eq]
  constructor
  · rintro ⟨c, hc, rfl, rfl⟩
    exact hc
  · exact fun h => ⟨_, h, rfl, rfl⟩

theorem royalIn_renameSuits (s : Suit) : RoyalIn (renameSuits σ hand) (σ s) ↔ RoyalIn hand s := by
  simp only [RoyalIn, mem_renameSuits]

theorem ranks_renameSuits : ranks (renameSuits σ hand) = ranks hand := by
  simp [ranks, renameSuits]

theorem fiveInARow_renameSuits : FiveInARow (renameSuits σ hand) ↔ FiveInARow hand := by
  rw [fiveInARow_iff, fiveInARow_iff, ranks_renameSuits]

theorem countsRank_renameSuits (n : Nat) : CountsRank (renameSuits σ hand) n ↔ CountsRank hand n := by
  simp only [CountsRank, rankCount_renameSuits]

theorem firstPair_renameSuits (r : Rank) : FirstPair (renameSuits σ hand) r ↔ FirstPair hand r := by
  simp only [FirstPair, rankCount_renameSuits]

theorem countsFlushSuit_renameSuits : CountsFlushSuit (renameSuits σ hand) ↔ CountsFlushSuit hand := by
  unfold CountsFlushSuit
  rw [← σ.exists_congr_right]
  simp only [suitCount_renameSuits]

theorem atMostOneFlushSuit_renameSuits :
    AtMostOneFlushSuit (renameSuits σ hand) ↔ AtMostOneFlushSuit hand := by
  unfold AtMostOneFlushSuit
  rw [← σ.forall_congr_right]
  refine forall_congr' fun s => ?_
  rw [← σ.forall_congr_right]
  simp only [suitCount_renameSuits, EmbeddingLike.apply_eq_iff_eq]

variable {σ hand}

/-- With one candidate, the suit found first is the suit there is. A counter
past four has a count past four behind it, wrapped or not. -/
theorem flushSuit_iff_of_atMostOne (h : AtMostOneFlushSuit hand) (s : Suit) :
    FlushSuit hand s ↔ 4 < suitCount hand s % 256 := by
  refine ⟨And.left, fun hs => ⟨hs, fun t hlt ht => ?_⟩⟩
  have hcount : ∀ u, 4 < suitCount hand u % 256 → 4 < suitCount hand u := fun u hu =>
    hu.trans_le (Nat.mod_le _ _)
  exact absurd (h t s (hcount t ht) (hcount s hs)) fun heq => by simp [heq] at hlt

/-- The royal flush test looks at the same suit under its new name. -/
theorem royal_renameSuits (h : AtMostOneFlushSuit hand) :
    (∃ s, FlushSuit (renameSuits σ hand) s ∧ RoyalIn (renameSuits σ hand) s) ↔
      ∃ s, FlushSuit hand s ∧ RoyalIn hand s := by
  have h' := (atMostOneFlushSuit_renameSuits σ hand).mpr h
  rw [← σ.exists_congr_right]
  simp only [flushSuit_iff_of_atMostOne h, flushSuit_iff_of_atMostOne h', suitCount_renameSuits,
    royalIn_renameSuits]

theorem renameSuits_ne_nil : renameSuits σ hand ≠ [] ↔ hand ≠ [] := by simp [renameSuits]

theorem combination_renameSuits (h : AtMostOneFlushSuit hand) :
    combination (renameSuits σ hand) = combination hand := by
  simp only [combination, royal_renameSuits h, countsFlushSuit_renameSuits, countsRank_renameSuits,
    fiveInARow_renameSuits, firstPair_renameSuits]

end Suits

/-- **No suit is favoured.** When at most one suit has more than four cards, as
in every hand of at most nine, `Evaluate` returns one combination for the hand
and for the hand with its suits renamed, by any permutation and for evaluators
with any histories, exactly when the hand is not empty: of an empty one it reads
the first card all the same. -/
theorem result_renameSuits (hand : List Card) :
    (hand.length ≤ 9 → AtMostOneFlushSuit hand) ∧
      (AtMostOneFlushSuit hand → ∀ (σ : Equiv.Perm Suit) (e e' : HandEvaluator),
        (∃ c, e.result (renameSuits σ hand) = .ok c ∧ e'.result hand = .ok c) ↔ hand ≠ []) := by
  refine ⟨atMostOneFlushSuit_of_length_le, fun h σ e e' => ⟨?_, fun hne => ?_⟩⟩
  · rintro ⟨c, -, hc⟩ rfl
    cases hc
  · refine ⟨combination hand, ?_, e'.result_eq hne⟩
    rw [e.result_eq (renameSuits_ne_nil.mpr hne), combination_renameSuits h]

theorem result_renameSuits_royal :
    ∃ c, HandEvaluator.reset.result (renameSuits (Equiv.swap .spades .hearts)
          [⟨.spades, .ten⟩, ⟨.spades, .jack⟩, ⟨.spades, .queen⟩, ⟨.spades, .king⟩, ⟨.spades, .ace⟩]) = .ok c ∧
        HandEvaluator.reset.result
          [⟨.spades, .ten⟩, ⟨.spades, .jack⟩, ⟨.spades, .queen⟩, ⟨.spades, .king⟩, ⟨.spades, .ace⟩] = .ok c := by
  obtain ⟨hfew, hreturns⟩ := result_renameSuits
    [⟨.spades, .ten⟩, ⟨.spades, .jack⟩, ⟨.spades, .queen⟩, ⟨.spades, .king⟩, ⟨.spades, .ace⟩]
  exact (hreturns (hfew (by decide)) _ _ _).mpr (by simp)

/-- No suit of the empty hand has a card, and neither it nor what its renaming
makes of it is answered. -/
theorem renameSuits_unanswered :
    AtMostOneFlushSuit [] ∧ ¬ ∃ c, HandEvaluator.reset.result (renameSuits (Equiv.swap .spades .hearts) []) = .ok c ∧
      HandEvaluator.reset.result [] = .ok c := by
  refine ⟨by decide, ?_⟩
  rintro ⟨c, -, hc⟩
  cases hc

end PokerEngine
