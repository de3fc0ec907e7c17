/-
The streak scan of `CheckStraight`, and what it finds in an ascending hand.

The two 8-bit counters never pass 12, since every step of a streak raises the
rank (`Streak.agrees`); so the scan finds exactly the five neighbouring cards
whose ranks rise by one (`checkStraight_eq`). In an ascending hand a second
card of an inner rank stands between the neighbours and breaks the streak:
`checkStraight_iff_fiveConsecutive` says when the scan and the five
consecutive ranks agree.
-/
import PokerEngine.ChainScan
import PokerEngine.HandEvaluator

namespace PokerEngine

open Card (Suit Rank Ascending)

/-- `d` is one rank above `c`. -/
def Card.Above (c d : Card) : Prop := d.rank.toNat = c.rank.toNat + 1

instance : DecidableRel Card.Above := fun _ _ => inferInstanceAs (Decidable (_ = _))

/-- The numbers of the hand's ranks, in the hand's order. -/
def ranks (hand : List Card) : List Nat := hand.map (·.rank.toNat)

theorem mem_ranks {hand : List Card} {k : Nat} : k ∈ ranks hand ↔ ∃ c ∈ hand, c.rank.toNat = k := by
  simp [ranks]

theorem ranks_lt {hand : List Card} {k : Nat} (h : k ∈ ranks hand) : k < 13 := by
  obtain ⟨c, -, rfl⟩ := mem_ranks.mp h
  exact c.rank.toNat_lt

/-! ## The scan -/

/-- The loop state agrees with the unbounded walk over the same cards. -/
structure Streak.Agrees (s : Streak) (w : ChainScan Card) : Prop where
  previous : s.previousRank = w.previous.rank
  current : s.consecutiveCounter.toNat = w.current
  longest : s.maxConsecutiveCounter.toNat = w.longest

theorem UInt8.toNat_max (a b : UInt8) : (max a b).toNat = max a.toNat b.toNat := by
  change (if a ≤ b then b else a).toNat = _
  split
  · next h => rw [UInt8.le_iff_toNat_le] at h; omega
  · next h => rw [UInt8.le_iff_toNat_le] at h; omega

/-- One iteration, as long as the counter is below 255. -/
theorem Streak.Agrees.next {s : Streak} {w : ChainScan Card} (h : s.Agrees w) (hlt : w.current < 255)
    (card : Card) : (s.next card).Agrees (ChainScan.next Card.Above w card) := by
  unfold Streak.next ChainScan.next
  have hinc : (s.consecutiveCounter + 1).toNat = w.current + 1 := by
    rw [UInt8.toNat_add, h.current]; exact Nat.mod_eq_of_lt (by simp; omega)
  by_cases hstep : card.rank.toNat = s.previousRank.toNat + 1
  · have habove : Card.Above w.previous card := by rw [h.previous] at hstep; exact hstep
    simp only [hstep, habove, if_true]
    exact ⟨rfl, hinc, by rw [UInt8.toNat_max, hinc, h.longest]⟩
  · have habove : ¬ Card.Above w.previous card := by rw [h.previous] at hstep; exact hstep
    simp only [hstep, habove, if_false]
    exact ⟨rfl, rfl, h.longest⟩

/-- The counter of a streak is at most the rank it has reached. -/
theorem Streak.current_le_rank (first : Card) (rest : List Card) :
    (ChainScan.scan Card.Above first rest).current ≤
      (ChainScan.scan Card.Above first rest).previous.rank.toNat :=
  ChainScan.current_le Card.Above (f := fun c => c.rank.toNat)
    (fun _ _ h => by unfold Card.Above at h; omega) first rest

/-- **The counters never wrap**, however long the hand. -/
theorem Streak.agrees (first : Card) (rest : List Card) :
    (rest.foldl Streak.next (.start first)).Agrees (ChainScan.scan Card.Above first rest) := by
  induction rest using List.reverseRecOn with
  | nil => exact ⟨rfl, rfl, rfl⟩
  | append_singleton rest card ih =>
    rw [List.foldl_append, ChainScan.scan_concat]
    have := Streak.current_le_rank first rest
    have := (ChainScan.scan Card.Above first rest).previous.rank.toNat_lt
    exact ih.next (by omega) card

/-- Five cards next to each other in the hand, each one rank above the one
before. -/
def FiveInARow (hand : List Card) : Prop :=
  ∃ block, block <:+: hand ∧ ∃ low, ranks block = List.range' low 5

theorem fiveInARow_iff {hand : List Card} : FiveInARow hand ↔ ∃ low, List.range' low 5 <:+: ranks hand := by
  constructor
  · intro ⟨block, hb, low, hlow⟩
    exact ⟨low, List.infix_map_iff.mpr ⟨block, hb, hlow.symm⟩⟩
  · intro ⟨low, h⟩
    obtain ⟨block, hb, hlow⟩ := List.infix_map_iff.mp h
    exact ⟨block, hb, low, hlow.symm⟩

/-- The maximum reaches 4 when five neighbours rise by one. -/
theorem Streak.max_ge_four_iff (first : Card) (rest : List Card) :
    (rest.foldl Streak.next (.start first)).maxConsecutiveCounter ≥ 4 ↔ FiveInARow (first :: rest) := by
  rw [ge_iff_le, UInt8.le_iff_toNat_le, (Streak.agrees first rest).longest]
  change 4 ≤ _ ↔ _
  rw [ChainScan.le_longest_iff]
  refine exists_congr fun block => and_congr_right fun _ => ?_
  rw [← isChain_succ_iff (n := 4), ranks, List.isChain_map, List.length_map]
  rfl

instance (hand : List Card) : Decidable (FiveInARow hand) :=
  match hand with
  | [] => .isFalse fun ⟨_, hb, low, hlow⟩ => by
    obtain rfl := List.infix_nil.mp hb
    simp [ranks, List.range'_succ] at hlow
  | first :: rest => decidable_of_iff _ (Streak.max_ge_four_iff first rest)

/-- A checker that answers by a test reports its label when the test succeeds. -/
theorem HandEvaluator.reports_iff {p : Prop} [Decidable p] {c : CombinationType} :
    (.ok (if p then some c else none) : CheckResult) = .ok (some c) ↔ p := by
  split <;> simp_all

/-- `CheckStraight` on a non-empty hand. -/
theorem checkStraight_eq (e : HandEvaluator) {hand : List Card} (hne : hand ≠ []) :
    e.checkStraight hand = .ok (if FiveInARow hand then some .straight else none) := by
  cases hand with
  | nil => exact absurd rfl hne
  | cons first rest =>
    simp only [HandEvaluator.checkStraight, Streak.max_ge_four_iff]

/-! ## Ascending hands -/

/-- Five different cards of the hand have five consecutive ranks. -/
def FiveConsecutive (hand : List Card) : Prop :=
  ∃ cards, cards.Nodup ∧ (∀ c ∈ cards, c ∈ hand) ∧ ∃ low, ranks cards = List.range' low 5

/-- Five consecutive ranks of the hand, the three inner ones held once each. -/
def FiveConsecutiveInnerOnce (hand : List Card) : Prop :=
  ∃ low, (∀ k ≤ 4, low + k ∈ ranks hand) ∧ ∀ k < 4, 0 < k → (ranks hand).count (low + k) = 1

theorem fiveConsecutive_iff {hand : List Card} :
    FiveConsecutive hand ↔ ∃ low, ∀ k ≤ 4, low + k ∈ ranks hand := by
  constructor
  · intro ⟨cards, _, hsub, low, hlow⟩
    refine ⟨low, fun k hk => ?_⟩
    have hmem : low + k ∈ ranks cards := by
      rw [hlow, List.mem_range'_1]; omega
    obtain ⟨c, hc, hck⟩ := mem_ranks.mp hmem
    exact mem_ranks.mpr ⟨c, hsub c hc, hck⟩
  · intro ⟨low, h⟩
    choose f hf using fun k : Fin 5 => mem_ranks.mp (h k.val (by omega))
    have hranks : ranks (List.ofFn f) = List.range' low 5 := by
      simp [ranks, List.ofFn_succ, (hf _).2, List.range'_succ]
    refine ⟨List.ofFn f, ?_, ?_, low, hranks⟩
    · refine List.Nodup.of_map (fun c : Card => c.rank.toNat) ?_
      change (ranks (List.ofFn f)).Nodup
      rw [hranks]
      exact List.nodup_range'
    · intro c hc
      obtain ⟨k, rfl⟩ := (List.mem_ofFn' f c).mp hc
      exact (hf k).1

theorem Card.Ascending.sorted_ranks {hand : List Card} (h : Ascending hand) :
    (ranks hand).Pairwise (· ≤ ·) :=
  List.pairwise_map.mpr h.rank_le

/-- In an ascending hand five neighbours rise by one when the hand holds five
consecutive ranks, the inner ones once. -/
theorem fiveInARow_iff_innerOnce {hand : List Card} (h : Ascending hand) :
    FiveInARow hand ↔ FiveConsecutiveInnerOnce hand := by
  rw [fiveInARow_iff]
  exact exists_congr fun low => range'_infix_iff h.sorted_ranks

theorem FiveConsecutiveInnerOnce.fiveConsecutive {hand : List Card} (h : FiveConsecutiveInnerOnce hand) :
    FiveConsecutive hand := by
  obtain ⟨low, hmem, -⟩ := h
  exact fiveConsecutive_iff.mpr ⟨low, hmem⟩

/-- **When `CheckStraight` is right about an ascending hand**: when the hand
has no five consecutive ranks, or has five of which the three inner ones are
held once each. -/
theorem checkStraight_iff_fiveConsecutive (e : HandEvaluator) {hand : List Card} (hne : hand ≠ [])
    (h : Ascending hand) :
    (e.checkStraight hand = .ok (some .straight) ↔ FiveConsecutive hand) ↔
      (FiveConsecutive hand → FiveConsecutiveInnerOnce hand) := by
  have hcheck : e.checkStraight hand = .ok (some .straight) ↔ FiveConsecutiveInnerOnce hand := by
    rw [checkStraight_eq e hne, HandEvaluator.reports_iff, fiveInARow_iff_innerOnce h]
  rw [hcheck]
  exact ⟨fun h => h.mpr, fun h => ⟨FiveConsecutiveInnerOnce.fiveConsecutive, h⟩⟩

/-- Two to six with a second three. -/
def pairInsideStraight : List Card :=
  [⟨.spades, .two⟩, ⟨.spades, .three⟩, ⟨.clubs, .three⟩, ⟨.spades, .four⟩, ⟨.hearts, .five⟩, ⟨.spades, .six⟩]

theorem checkStraight_iff_fiveConsecutive_run :
    (HandEvaluator.reset.checkStraight
        [⟨.spades, .two⟩, ⟨.spades, .three⟩, ⟨.spades, .four⟩, ⟨.hearts, .five⟩, ⟨.spades, .six⟩] =
          .ok (some .straight) ↔
      FiveConsecutive
        [⟨.spades, .two⟩, ⟨.spades, .three⟩, ⟨.spades, .four⟩, ⟨.hearts, .five⟩, ⟨.spades, .six⟩]) :=
  (checkStraight_iff_fiveConsecutive _ (by decide) (by decide)).mpr fun _ => ⟨0, by decide, by decide⟩

/-- The second three breaks the streak: the hand holds two to six, and the
scan finds no straight. -/
theorem checkStraight_misses_pairInsideStraight :
    pairInsideStraight ≠ [] ∧ Ascending pairInsideStraight ∧
      ¬ (HandEvaluator.reset.checkStraight pairInsideStraight = .ok (some .straight) ↔
        FiveConsecutive pairInsideStraight) := by
  refine ⟨by decide, by decide, fun h => ?_⟩
  have hscan : HandEvaluator.reset.checkStraight pairInsideStraight = .ok none := by decide
  rw [hscan] at h
  have := h.mpr (fiveConsecutive_iff.mpr ⟨0, by decide⟩)
  simp at this

end PokerEngine
