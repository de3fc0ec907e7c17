/-
`CheckStraightFlush` against `CheckStraight` on the cards of one suit.

In an ascending hand without duplicates the cards of one suit have different
ranks in rising order, so the streak scan over them finds a straight exactly
when the suit has five consecutive ranks (`fiveInARow_ofSuit_iff`). The checker
runs that scan, and then answers without it: it reports every hand in which a
suit has five cards.
-/
import PokerEngine.Combination

namespace PokerEngine

open Card (Suit Rank Ascending)

/-- The cards of one suit, in the hand's order. -/
def ofSuit (hand : List Card) (s : Suit) : List Card := hand.filter fun card => card.suit = s

theorem mem_ranks_ofSuit {hand : List Card} {s : Suit} {r : Rank} :
    r.toNat ∈ ranks (ofSuit hand s) ↔ (⟨s, r⟩ : Card) ∈ hand := by
  rw [mem_ranks]
  simp only [ofSuit, List.mem_filter, decide_eq_true_eq, Rank.toNat_inj]
  constructor
  · rintro ⟨c, ⟨hc, rfl⟩, rfl⟩
    exact hc
  · exact fun h => ⟨_, ⟨h, rfl⟩, rfl⟩

theorem ofSuit_ascending {hand : List Card} (h : Ascending hand) (s : Suit) : Ascending (ofSuit hand s) :=
  List.Pairwise.filter _ h

/-- Different cards of one suit have different ranks. -/
theorem nodup_ranks_ofSuit {hand : List Card} (hn : hand.Nodup) (s : Suit) : (ranks (ofSuit hand s)).Nodup := by
  have hf : (ofSuit hand s).Nodup := hn.filter _
  refine hf.map_on fun c hc d hd hcd => ?_
  simp only [ofSuit, List.mem_filter, decide_eq_true_eq] at hc hd
  cases c; cases d; simp_all

/-- Five consecutive numbers among the ranks of one suit are five cards of the
hand. -/
theorem run_ofSuit_iff {hand : List Card} {s : Suit} :
    (∃ low, ∀ k ≤ 4, low + k ∈ ranks (ofSuit hand s)) ↔ HasRun false fun r => (⟨s, r⟩ : Card) ∈ hand := by
  simp only [HasRun, Bool.false_eq_true, false_and, or_false]
  refine exists_congr fun low => ⟨fun h => ?_, fun ⟨hlow, h⟩ k hk => ?_⟩
  · have hlt := ranks_lt (h 4 (Nat.le_refl _))
    refine ⟨by omega, fun r hge hle => mem_ranks_ofSuit.mp ?_⟩
    have := h (r.toNat - low) (by omega)
    rwa [Nat.add_sub_cancel' hge] at this
  · let r : Rank := EnumClass.numbering.symm ⟨low + k, by omega⟩
    have hr : r.toNat = low + k := by simp [r, Rank.toNat, EnumClass.toUnderlying]
    rw [← hr]
    exact mem_ranks_ofSuit.mpr (h r (by omega) (by omega))

/-- The streak scan over one suit's cards. -/
theorem fiveInARow_ofSuit_iff {hand : List Card} (hn : hand.Nodup) (h : Ascending hand) (s : Suit) :
    FiveInARow (ofSuit hand s) ↔ HasRun false fun r => (⟨s, r⟩ : Card) ∈ hand := by
  rw [fiveInARow_iff_innerOnce (ofSuit_ascending h s), ← run_ofSuit_iff]
  refine exists_congr fun low => ⟨And.left, fun hmem => ⟨hmem, fun k hk _ => ?_⟩⟩
  exact List.count_eq_one_of_mem (nodup_ranks_ofSuit hn s) (hmem k (Nat.le_of_lt hk))

/-- `CheckStraight` on the cards of one suit. -/
theorem checkStraight_ofSuit_iff (e : HandEvaluator) {hand : List Card} (hn : hand.Nodup) (h : Ascending hand)
    (s : Suit) :
    (ofSuit hand s ≠ [] ∧ e.checkStraight (ofSuit hand s) = .ok (some .straight)) ↔
      HasRun false fun r => (⟨s, r⟩ : Card) ∈ hand := by
  rw [← fiveInARow_ofSuit_iff hn h s]
  constructor
  · intro ⟨hne, hcheck⟩
    rwa [checkStraight_eq e hne, HandEvaluator.reports_iff] at hcheck
  · intro hrow
    have hne : ofSuit hand s ≠ [] := by
      rintro hnil
      rw [hnil] at hrow
      exact absurd hrow (by decide)
    exact ⟨hne, by rw [checkStraight_eq e hne, if_pos hrow]⟩

/-- **When `CheckStraightFlush` agrees with `CheckStraight` on the suits of the
hand**: when no suit has five cards, or some suit has five consecutive ranks. -/
theorem checkStraightFlush_iff_checkStraight (e : HandEvaluator) {hand : List Card} (hn : hand.Nodup)
    (h : Ascending hand) :
    ((HandEvaluator.counted hand).checkStraightFlush hand = .ok (some .straightFlush) ↔
        ∃ s, ofSuit hand s ≠ [] ∧ e.checkStraight (ofSuit hand s) = .ok (some .straight)) ↔
      ((∃ s, 5 ≤ suitCount hand s) → ∃ s, HasRun false fun r => (⟨s, r⟩ : Card) ∈ hand) := by
  have hreport : (HandEvaluator.counted hand).checkStraightFlush hand = .ok (some .straightFlush) ↔
      ∃ s, 5 ≤ suitCount hand s := by
    rw [HandEvaluator.checkStraightFlush_eq, HandEvaluator.reports_iff, countsFlushSuit_iff hn false, Forms]
  simp only [hreport, checkStraight_ofSuit_iff e hn h]
  exact ⟨fun hiff => hiff.mp, fun himp => ⟨himp, fun h => h.imp fun _ hs => hs.five_le⟩⟩

/-- Two to six of hearts, with a second two. -/
def heartRun : List Card :=
  [⟨.spades, .two⟩, ⟨.hearts, .two⟩, ⟨.hearts, .three⟩, ⟨.hearts, .four⟩, ⟨.hearts, .five⟩, ⟨.hearts, .six⟩]

theorem checkStraightFlush_iff_checkStraight_heartRun :
    (HandEvaluator.counted heartRun).checkStraightFlush heartRun = .ok (some .straightFlush) ↔
      ∃ s, ofSuit heartRun s ≠ [] ∧ HandEvaluator.reset.checkStraight (ofSuit heartRun s) = .ok (some .straight) :=
  (checkStraightFlush_iff_checkStraight _ (by decide) (by decide)).mpr fun _ => ⟨.hearts, by decide⟩

/-- Five spades, no two of them consecutive, are reported. -/
theorem checkStraightFlush_overstates_spadeFlush :
    spadeFlush.Nodup ∧ Ascending spadeFlush ∧
      (HandEvaluator.counted spadeFlush).checkStraightFlush spadeFlush = .ok (some .straightFlush) ∧
      ¬ ∃ s, ofSuit spadeFlush s ≠ [] ∧
        HandEvaluator.reset.checkStraight (ofSuit spadeFlush s) = .ok (some .straight) := by
  refine ⟨by decide, by decide, by decide, by decide⟩

end PokerEngine
