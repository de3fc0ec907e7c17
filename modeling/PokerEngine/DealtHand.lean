/-
A hand from the deck to its answer: cards dealt by a `Deck`, inserted into a
`sorted_vector<Card>` in any order, and evaluated.

The deck deals no card twice and the vector lists what it holds in order, which
is what the answers of `Evaluate` (`Answers`) ask of a hand.
-/
import PokerEngine.Answers
import PokerEngine.DeckFacts
import PokerEngine.SortedVector

namespace PokerEngine

open SortedVector (sinceClear afterCalls isStableSort_afterCalls ascending_afterCalls afterCalls_eq_of_perm)

section Perm

variable {hand hand' : List Card} (hp : hand.Perm hand')
include hp

theorem forms_perm (lowAceFlush : Bool) (b : CombinationType) :
    Forms lowAceFlush hand b ↔ Forms lowAceFlush hand' b := by
  cases b <;> simp only [Forms, royalIn_perm hp, rankCount_perm hp, suitCount_perm hp, hp.mem_iff]

theorem isBest_perm (lowAceFlush : Bool) (b : CombinationType) :
    IsBest lowAceFlush hand b ↔ IsBest lowAceFlush hand' b := by
  simp only [IsBest, forms_perm hp]

end Perm

namespace Deck

/-- Every session keeps its invariant. -/
theorem session_inv (shuffle : Shuffle) (calls : List Call) :
    ∃ s σ, session shuffle calls = some s ∧ s.Inv σ := by
  obtain ⟨d, hd, hstacked, hptr⟩ := construct_eq shuffle
  have hinit : (⟨d, []⟩ : Session).Inv shuffle := ⟨hstacked, by simpa using hptr, rfl⟩
  obtain ⟨s, σ, hs, hinv⟩ := hinit.run calls
  exact ⟨s, σ, by simp only [session, hd]; exact hs, hinv⟩

/-- **From the deck to the answer.** Some of the cards dealt since the last
shuffle, inserted into a sorted vector since its last `clear`, in whatever order
they were dealt and inserted, are evaluated without an access out of range, to
one answer, and that is one of those to the best combination of the cards. -/
theorem dealt_hand (shuffle : Shuffle) (calls : List Call) :
    ∃ s, session shuffle calls = some s ∧ ∀ inserts, sinceClear inserts ≠ [] →
      (sinceClear inserts).Subperm (s.dealt.filterMap id) → ∃ c,
        (∀ (e : HandEvaluator) (inserts' : List (SortedVector.Call Card)),
          (sinceClear inserts').Perm (sinceClear inserts) →
            e.result (afterCalls Card.lt inserts').data = .ok c) ∧
        ∀ lowAceFlush b, IsBest lowAceFlush (sinceClear inserts) b →
          c ∈ answers b ∧ ((sinceClear inserts).length ≤ 7 → c ∈ sevenCardAnswers b) := by
  obtain ⟨s, σ, hs, hinv⟩ := session_inv shuffle calls
  refine ⟨s, hs, fun inserts hne hsub => ?_⟩
  have hperm := (isStableSort_afterCalls Card.lt inserts).perm
  have hnodup : (sinceClear inserts).Nodup := by
    obtain ⟨l, hl, hsublist⟩ := hsub
    exact hl.nodup_iff.mp (hinv.nodup.sublist hsublist)
  refine ⟨combination (afterCalls Card.lt inserts).data, fun e inserts' hsame => ?_, fun lowAceFlush b hbest => ?_⟩
  · rw [afterCalls_eq_of_perm hsame]
    exact e.result_eq fun hnil => hne (by rw [hnil] at hperm; exact hperm.symm.eq_nil)
  · have hbest' := (isBest_perm hperm lowAceFlush b).mpr hbest
    have hn := hperm.nodup_iff.mpr hnodup
    have hasc := ascending_afterCalls inserts
    exact ⟨hbest'.combination_mem hn hasc, fun hlen =>
      hbest'.combination_mem_seven hn hasc (hperm.length_eq ▸ hlen)⟩

end Deck

end PokerEngine
