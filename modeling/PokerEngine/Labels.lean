/-
The order of the checkers, the labels they return, and the numbers of the
combinations.

The first checker that succeeds decides, so `Evaluate` ranks the hands by the
checkers' order if each of the nine returns the combination that has its
position as number. Eight do. `CheckThreeOfAKind` returns `kFourOfAKind`, and a
hand at which it is the first to succeed is ranked above those that the three
checkers before it stop at.
-/
import PokerEngine.Combination

namespace PokerEngine

open Card (Suit Rank)

namespace HandEvaluator

/-- The checker finds its combination. -/
def succeeds (e : HandEvaluator) (hand : List Card) (check : CheckFunction) : Bool :=
  match check e hand with
  | .ok (some _) => true
  | _ => false

/-- The position in `checkerFunctions` of the first checker that succeeds, with
the mappings that `Evaluate` fills from the hand. -/
def firstChecker (hand : List Card) : Option Nat := checkerFunctions.findIdx? (succeeds (counted hand) hand)

theorem findIdx?_cons_of {e : HandEvaluator} {hand : List Card} {check : CheckFunction}
    {checkers : List CheckFunction} {p : Prop} [Decidable p] {c : CombinationType}
    (h : check e hand = .ok (if p then some c else none)) :
    (check :: checkers).findIdx? (succeeds e hand) =
      if p then some 0 else (checkers.findIdx? (succeeds e hand)).map (· + 1) := by
  have hp : succeeds e hand check = decide p := by
    rw [succeeds, h]
    split_ifs with hp <;> simp [hp]
  simp [List.findIdx?_cons, hp]

/-- Where the checkers stop at a non-empty hand. The flush checker is never the
first. -/
theorem firstChecker_eq {hand : List Card} (hne : hand ≠ []) :
    firstChecker hand =
      if ∃ s, FlushSuit hand s ∧ RoyalIn hand s then some 0
      else if CountsFlushSuit hand then some 1
      else if CountsRank hand 4 then some 2
      else if CountsRank hand 2 ∧ CountsRank hand 3 then some 3
      else if FiveInARow hand then some 5
      else if CountsRank hand 3 then some 6
      else if ∃ r, FirstPair hand r ∧ r ≠ .four then some 7
      else if CountsRank hand 2 then some 8
      else none := by
  rw [firstChecker, checkerFunctions, findIdx?_cons_of (checkRoyalFlush_eq hand),
    findIdx?_cons_of (checkStraightFlush_eq hand), findIdx?_cons_of (checkFourOfAKind_eq hand),
    findIdx?_cons_of (checkFullHouse_eq hand), findIdx?_cons_of (checkFlush_eq hand),
    findIdx?_cons_of (checkStraight_eq _ hne), findIdx?_cons_of (checkThreeOfAKind_eq hand),
    findIdx?_cons_of (checkTwoPair_eq hand), findIdx?_cons_of (checkPair_eq hand), List.findIdx?_nil]
  simp only [apply_ite (Option.map (· + 1)), Option.map_some, Option.map_none, Nat.reduceAdd]
  by_cases hsuit : CountsFlushSuit hand
  · simp only [hsuit, if_true]
  · simp only [hsuit, not_five_of_not_countsFlushSuit hsuit, if_false]

end HandEvaluator

open HandEvaluator (firstChecker)

/-- `Evaluate` returns the combination numbered as the first checker that
succeeds, and a high card when none does. -/
def NumberedByPosition (e : HandEvaluator) (hand : List Card) : Prop :=
  ∃ c, e.result hand = .ok c ∧ (∀ i, firstChecker hand = some i → c.toNat = i) ∧
    (firstChecker hand = none → c = .highCard)

/-- Of two hands at which checkers stop, `Evaluate` ranks the one that an
earlier checker stops at strictly better, and hands of different checkers get
different combinations. -/
def RankedByPosition (e e' : HandEvaluator) (hand hand' : List Card) : Prop :=
  ∀ c c', e.result hand = .ok c → e'.result hand' = .ok c' →
    ∀ i i', firstChecker hand = some i → firstChecker hand' = some i' →
      (i < i' → c.toNat < c'.toNat) ∧ (i' < i → c'.toNat < c.toNat) ∧ (i ≠ i' → c ≠ c')

/-- A rank is counted three times, and nothing lets a checker before
`CheckThreeOfAKind` succeed. -/
def TripletOnly (hand : List Card) : Prop :=
  CountsRank hand 3 ∧ ¬ CountsRank hand 2 ∧ ¬ CountsRank hand 4 ∧ ¬ CountsFlushSuit hand ∧ ¬ FiveInARow hand

/-- No suit is counted more than four times, and the hand has what one of the
checkers from `CheckFourOfAKind` to `CheckStraight` asks for. -/
def QuadsToStraight (hand : List Card) : Prop :=
  ¬ CountsFlushSuit hand ∧ (CountsRank hand 4 ∨ CountsRank hand 2 ∧ CountsRank hand 3 ∨ FiveInARow hand)

instance (hand) : Decidable (TripletOnly hand) := by unfold TripletOnly; infer_instance
instance (hand) : Decidable (QuadsToStraight hand) := by unfold QuadsToStraight; infer_instance

/-- How the position where the checkers stop and the combination go together. -/
inductive Stop (hand : List Card) : Option Nat → CombinationType → Prop
  | triplet (only : TripletOnly hand) (other : ¬ QuadsToStraight hand) : Stop hand (some 6) .fourOfAKind
  | numbered (c : CombinationType) (only : ¬ TripletOnly hand) (ne : c.toNat ≠ 6)
      (between : QuadsToStraight hand ↔ 2 ≤ c.toNat ∧ c.toNat ≤ 5) : Stop hand (some c.toNat) c
  | nothing (only : ¬ TripletOnly hand) (other : ¬ QuadsToStraight hand) : Stop hand none .highCard

theorem stop_cases {hand : List Card} (hne : hand ≠ []) : Stop hand (firstChecker hand) (combination hand) := by
  rw [HandEvaluator.firstChecker_eq hne, combination]
  by_cases hroyal : ∃ s, FlushSuit hand s ∧ RoyalIn hand s
  · obtain ⟨s, hs, _⟩ := id hroyal
    have hsuit := hs.countsFlushSuit
    rw [if_pos hroyal, if_pos hroyal]
    exact .numbered .royalFlush (fun h => h.2.2.2.1 hsuit) (by decide)
      ⟨fun h => absurd hsuit h.1, fun h => absurd h (by decide)⟩
  rw [if_neg hroyal, if_neg hroyal]
  by_cases hsuit : CountsFlushSuit hand
  · rw [if_pos hsuit, if_pos hsuit]
    exact .numbered .straightFlush (fun h => h.2.2.2.1 hsuit) (by decide)
      ⟨fun h => absurd hsuit h.1, fun h => absurd h (by decide)⟩
  rw [if_neg hsuit, if_neg hsuit]
  by_cases hfour : CountsRank hand 4
  · rw [if_pos hfour, if_pos hfour]
    exact .numbered .fourOfAKind (fun h => h.2.2.1 hfour) (by decide)
      ⟨fun _ => by decide, fun _ => ⟨hsuit, .inl hfour⟩⟩
  rw [if_neg hfour, if_neg hfour]
  by_cases hfull : CountsRank hand 2 ∧ CountsRank hand 3
  · rw [if_pos hfull, if_pos hfull]
    exact .numbered .fullHouse (fun h => h.2.1 hfull.1) (by decide)
      ⟨fun _ => by decide, fun _ => ⟨hsuit, .inr (.inl hfull)⟩⟩
  rw [if_neg hfull, if_neg hfull]
  by_cases hrow : FiveInARow hand
  · rw [if_pos hrow, if_pos hrow]
    exact .numbered .straight (fun h => h.2.2.2.2 hrow) (by decide)
      ⟨fun _ => by decide, fun _ => ⟨hsuit, .inr (.inr hrow)⟩⟩
  rw [if_neg hrow, if_neg hrow]
  have hother : ¬ QuadsToStraight hand := by
    simp only [QuadsToStraight, hfour, hfull, hrow, or_false, and_false, not_false_eq_true]
  by_cases hthree : CountsRank hand 3
  · rw [if_pos hthree, if_pos hthree]
    exact .triplet ⟨hthree, fun h2 => hfull ⟨h2, hthree⟩, hfour, hsuit, hrow⟩ hother
  rw [if_neg hthree, if_neg hthree]
  by_cases htwo : ∃ r, FirstPair hand r ∧ r ≠ .four
  · rw [if_pos htwo, if_pos htwo]
    exact .numbered .twoPair (fun h => hthree h.1) (by decide)
      ⟨fun h => absurd h hother, fun h => absurd h (by decide)⟩
  rw [if_neg htwo, if_neg htwo]
  by_cases hpair : CountsRank hand 2
  · rw [if_pos hpair, if_pos hpair]
    exact .numbered .pair (fun h => hthree h.1) (by decide)
      ⟨fun h => absurd h hother, fun h => absurd h (by decide)⟩
  · rw [if_neg hpair, if_neg hpair]
    exact .nothing (fun h => hthree h.1) hother

theorem numberedByPosition_iff (e : HandEvaluator) {hand : List Card} (hne : hand ≠ []) :
    NumberedByPosition e hand ↔ ¬ TripletOnly hand := by
  simp only [NumberedByPosition, e.result_eq hne, Except.ok.injEq, exists_eq_left']
  have hstop := stop_cases hne
  generalize firstChecker hand = i, combination hand = c at hstop ⊢
  cases hstop with
  | triplet only => simp [only, CombinationType.toNat]
  | numbered c only => simp [only]
  | nothing only => simp [only]

theorem rankedByPosition_eq (e e' : HandEvaluator) {hand hand' : List Card} (hne : hand ≠ []) (hne' : hand' ≠ []) :
    RankedByPosition e e' hand hand' ↔ ∀ i ∈ firstChecker hand, ∀ i' ∈ firstChecker hand',
      (i < i' → (combination hand).toNat < (combination hand').toNat) ∧
      (i' < i → (combination hand').toNat < (combination hand).toNat) ∧
      (i ≠ i' → (combination hand).toNat ≠ (combination hand').toNat) := by
  simp only [RankedByPosition, e.result_eq hne, e'.result_eq hne', Except.ok.injEq,
    CombinationType.toNat_injective.ne_iff]
  constructor
  · intro h i hi i' hi'
    exact h _ _ rfl rfl i i' hi hi'
  · rintro h _ _ rfl rfl i i' hi hi'
    exact h i hi i' hi'

theorem rankedByPosition_iff (e e' : HandEvaluator) {hand hand' : List Card} (hne : hand ≠ []) (hne' : hand' ≠ []) :
    RankedByPosition e e' hand hand' ↔
      ¬ (TripletOnly hand ∧ QuadsToStraight hand') ∧ ¬ (QuadsToStraight hand ∧ TripletOnly hand') := by
  rw [rankedByPosition_eq e e' hne hne']
  have hstop := stop_cases hne
  have hstop' := stop_cases hne'
  generalize firstChecker hand = i, combination hand = c at hstop ⊢
  generalize firstChecker hand' = i', combination hand' = c' at hstop' ⊢
  have hquads : CombinationType.fourOfAKind.toNat = 2 := rfl
  cases hstop with
  | triplet only other =>
    cases hstop' with
    | triplet only' other' => simp [other, other']
    | numbered c' only' ne' between' =>
      simp only [Option.mem_def, Option.some.injEq, forall_eq', only, only', other, between', hquads]
      constructor
      · intro ⟨_, hbelow, _⟩
        refine ⟨fun ⟨_, hbetween⟩ => ?_, fun h => h.1⟩
        have := hbelow (by omega)
        omega
      · intro ⟨hbetween, _⟩
        have hbetween' : ¬ (2 ≤ c'.toNat ∧ c'.toNat ≤ 5) := fun h => hbetween ⟨trivial, h⟩
        refine ⟨fun _ => ?_, fun _ => ?_, fun _ => ?_⟩ <;> omega
    | nothing only' other' => simp [only', other']
  | numbered c only ne between =>
    cases hstop' with
    | triplet only' other' =>
      simp only [Option.mem_def, Option.some.injEq, forall_eq', only, only', other', between, hquads]
      constructor
      · intro ⟨hbelow, _, _⟩
        refine ⟨fun h => h.1, fun ⟨hbetween, _⟩ => ?_⟩
        have := hbelow (by omega)
        omega
      · intro ⟨_, hbetween⟩
        have hbetween' : ¬ (2 ≤ c.toNat ∧ c.toNat ≤ 5) := fun h => hbetween ⟨h, trivial⟩
        refine ⟨fun _ => ?_, fun _ => ?_, fun _ => ?_⟩ <;> omega
    | numbered c' only' ne' between' => simp [only, only']
    | nothing only' other' => simp [only, only']
  | nothing only other => simp [only, other]

/-- **When the labels agree with the order of the checkers.** A non-empty hand
gets the combination numbered as the first checker that succeeds exactly when
that is not `CheckThreeOfAKind`; two hands are ranked as their checkers are
ordered exactly when it is not so that this checker stops one of them and one
of the three before it stops the other. -/
theorem labels_iff (e e' : HandEvaluator) {hand hand' : List Card} (hne : hand ≠ []) (hne' : hand' ≠ []) :
    (NumberedByPosition e hand ↔ ¬ TripletOnly hand) ∧
      (RankedByPosition e e' hand hand' ↔
        ¬ (TripletOnly hand ∧ QuadsToStraight hand') ∧ ¬ (QuadsToStraight hand ∧ TripletOnly hand')) :=
  ⟨numberedByPosition_iff e hne, rankedByPosition_iff e e' hne hne'⟩

theorem labels_iff_pair :
    NumberedByPosition .reset [⟨.spades, .two⟩, ⟨.clubs, .two⟩] ∧
      RankedByPosition .reset .reset [⟨.spades, .two⟩, ⟨.clubs, .two⟩]
        [⟨.spades, .two⟩, ⟨.clubs, .three⟩, ⟨.hearts, .four⟩, ⟨.hearts, .five⟩, ⟨.clubs, .six⟩] :=
  have h := labels_iff .reset .reset (List.cons_ne_nil (⟨.spades, .two⟩ : Card) [⟨.clubs, .two⟩])
    (List.cons_ne_nil (⟨.spades, .two⟩ : Card)
      [⟨.clubs, .three⟩, ⟨.hearts, .four⟩, ⟨.hearts, .five⟩, ⟨.clubs, .six⟩])
  ⟨h.1.mpr (by decide), h.2.mpr (by decide)⟩

/-- `CheckThreeOfAKind`, in position 6, is the first to succeed on three twos,
and they are numbered 2, before a straight's 5. -/
theorem triplet_numbered_two :
    firstChecker [⟨.spades, .two⟩, ⟨.clubs, .two⟩, ⟨.hearts, .two⟩] = some 6 ∧
      HandEvaluator.reset.result [⟨.spades, .two⟩, ⟨.clubs, .two⟩, ⟨.hearts, .two⟩] = .ok .fourOfAKind ∧
      ¬ NumberedByPosition .reset [⟨.spades, .two⟩, ⟨.clubs, .two⟩, ⟨.hearts, .two⟩] ∧
      ¬ RankedByPosition .reset .reset [⟨.spades, .two⟩, ⟨.clubs, .two⟩, ⟨.hearts, .two⟩]
        [⟨.spades, .two⟩, ⟨.clubs, .three⟩, ⟨.hearts, .four⟩, ⟨.hearts, .five⟩, ⟨.clubs, .six⟩] := by
  refine ⟨by decide, ?_, ?_, ?_⟩
  · rw [HandEvaluator.result_eq _ (by decide)]
    decide
  · rw [numberedByPosition_iff _ (by decide)]
    decide
  · rw [rankedByPosition_iff _ _ (by decide) (by decide)]
    decide

end PokerEngine
