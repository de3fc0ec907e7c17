/-
The hand evaluator access by access (`hand_evaluator.cc`): every slot of the
two mappings is reached by its number, `hand` by an index, and the cards of one
suit through the iterators of a filtered view.

`evaluate_refines` says that this is the evaluator of `HandEvaluator`, with the same
access failing where one fails; `evaluate_inRange_iff` says that one fails for
the empty hand only.
-/
import PokerEngine.HandEvaluatorFacts

namespace PokerEngine

open Card (Suit Rank)

namespace HandEvaluator

/-- An element access outside its range: a slot of one of the mappings, a card
of the hand, or the end of the filtered view. -/
inductive Access
  | suitCount (index : Nat)
  | rankCount (index : Nat)
  | hand (index : Nat)
  | filtered
  deriving DecidableEq, Repr

namespace Indexed

/-- `check_return_type`, or the access that failed. -/
abbrev CheckResult := Except Access (Option CombinationType)

/-- `check_function`. -/
abbrev CheckFunction := HandEvaluator → List Card → CheckResult

/-- `suit_count_mapping_.return_enum_for(pred)`. -/
def suitFor (e : HandEvaluator) (pred : UInt8 → Bool) : Except Access (Option Suit) :=
  EnumIndexableArray.Indexed.returnEnumFor .suitCount e.suitCountMapping pred

/-- `rank_count_mapping_.return_enum_for(pred)`. -/
def rankFor (e : HandEvaluator) (pred : UInt8 → Bool) : Except Access (Option Rank) :=
  EnumIndexableArray.Indexed.returnEnumFor .rankCount e.rankCountMapping pred

/-- `combination` when the search found a member. -/
def report {ε : Type} (search : Except Access (Option ε)) (combination : CombinationType) : CheckResult := do
  return if (← search).isSome then some combination else none

def checkRoyalFlush : CheckFunction := fun e hand => do
  match ← suitFor e fun value => decide (value > 4) with
  | none => return none
  | some suit =>
    -- `std::find` reads no element behind the end of the hand.
    let contains := fun rank => decide ((⟨suit, rank⟩ : Card) ∈ hand)
    return if contains .ace && contains .king && contains .queen && contains .jack && contains .ten then
      some .royalFlush else none

/-- One iteration of the loop of `CheckStraightFlush`: the streak and
`streak_ending_card`. -/
def flushNext (suit : Suit) (s : Streak × Card) (card : Card) : Streak × Card :=
  let streak := s.1.next card
  (streak, if streak.maxConsecutiveCounter ≥ 4 then ⟨suit, card.rank⟩ else s.2)

/-- `hand | std::ranges::views::filter(…)`. -/
def filtered (hand : List Card) (suit : Suit) : FilterView Card := ⟨hand, fun card => card.suit = suit⟩

/-- The loop of `CheckStraightFlush`, from `filtered.cbegin()` on. -/
def flushStreak (suit : Suit) (hand : List Card) : Except Access (Streak × Card) := do
  let iterator := (filtered hand suit).begin
  let first ← iterator.deref .filtered
  let iterator ← iterator.next .filtered
  iterator.loop .filtered (flushNext suit) (.start first, default)

def checkStraightFlush : CheckFunction := fun e hand => do
  match ← suitFor e fun value => decide (value > 4) with
  | none => return none
  | some suit =>
    let streak ← flushStreak suit hand
    let _result := decide (streak.1.maxConsecutiveCounter ≥ 4)
    return some .straightFlush

def checkFourOfAKind : CheckFunction := fun e _ => report (rankFor e fun value => value == 4) .fourOfAKind

def checkThreeOfAKind : CheckFunction := fun e _ => report (rankFor e fun value => value == 3) .fourOfAKind

def checkPair : CheckFunction := fun e _ => report (rankFor e fun value => value == 2) .pair

def checkFullHouse : CheckFunction := fun e hand => do
  let pairResult ← checkPair e hand
  let tripletResult ← checkThreeOfAKind e hand
  return if pairResult.isSome && tripletResult.isSome then some .fullHouse else none

def checkFlush : CheckFunction := fun e _ => report (suitFor e fun value => value == 5) .flush

/-- The loop of `CheckStraight`, from `hand[0]` on. -/
def straightStreak (hand : List Card) : Except Access Streak := do
  let first ← Checked.read (.hand 0) hand 0
  Checked.forLoop hand.length (fun i s => return s.next (← Checked.read (.hand i) hand i)) 1 (.start first)

def checkStraight : CheckFunction := fun _ hand => do
  let streak ← straightStreak hand
  return if streak.maxConsecutiveCounter ≥ 4 then some .straight else none

def checkTwoPair : CheckFunction := fun e _ => do
  match ← rankFor e fun value => value == 2 with
  | none => return none
  | some rank =>
    let firstPairRank := UInt8.ofNat rank.toNat
    report (rankFor e fun value => if value == firstPairRank then false else value == 2) .twoPair

/-- `checker_functions`. -/
def checkerFunctions : List CheckFunction :=
  [checkRoyalFlush, checkStraightFlush, checkFourOfAKind, checkFullHouse, checkFlush,
    checkStraight, checkThreeOfAKind, checkTwoPair, checkPair]

def dispatch (e : HandEvaluator) (hand : List Card) : List CheckFunction → Except Access CombinationType
  | [] => return .highCard
  | check :: checkers => do
    match ← check e hand with
    | some combination => return combination
    | none => dispatch e hand checkers

/-- One iteration of the counting loop. -/
def count (e : HandEvaluator) (card : Card) : Except Access HandEvaluator := do
  let suits ← EnumIndexableArray.Indexed.modify .suitCount e.suitCountMapping card.suit (· + 1)
  let ranks ← EnumIndexableArray.Indexed.modify .rankCount e.rankCountMapping card.rank (· + 1)
  return ⟨suits, ranks⟩

/-- The two loops that set every counter to 0. -/
def reset (e : HandEvaluator) : Except Access HandEvaluator := do
  let suits ← EnumIndexableArray.Indexed.fill .suitCount e.suitCountMapping 0
  let ranks ← EnumIndexableArray.Indexed.fill .rankCount e.rankCountMapping 0
  return ⟨suits, ranks⟩

/-- `Evaluate`. -/
def evaluate (e : HandEvaluator) (hand : List Card) : Except Access (HandEvaluator × CombinationType) := do
  let e ← reset e
  let e ← hand.foldlM count e
  let combination ← dispatch e hand checkerFunctions
  return (e, combination)

/-! ## The mappings -/

@[simp] theorem suitFor_eq (e : HandEvaluator) (pred : UInt8 → Bool) :
    suitFor e pred = .ok (e.suitCountMapping.returnEnumFor pred) :=
  EnumIndexableArray.Indexed.returnEnumFor_eq _ _ _

@[simp] theorem rankFor_eq (e : HandEvaluator) (pred : UInt8 → Bool) :
    rankFor e pred = .ok (e.rankCountMapping.returnEnumFor pred) :=
  EnumIndexableArray.Indexed.returnEnumFor_eq _ _ _

theorem reset_eq (e : HandEvaluator) : reset e = .ok HandEvaluator.reset := by
  rw [reset, EnumIndexableArray.Indexed.fill_eq, EnumIndexableArray.Indexed.fill_eq]
  rfl

theorem count_eq (e : HandEvaluator) (card : Card) : count e card = .ok (e.count card) := by
  rw [count, EnumIndexableArray.Indexed.modify_eq, EnumIndexableArray.Indexed.modify_eq]
  rfl

theorem foldlM_count_eq (hand : List Card) (e : HandEvaluator) :
    hand.foldlM count e = .ok (hand.foldl HandEvaluator.count e) := by
  induction hand generalizing e with
  | nil => rfl
  | cons card hand ih =>
    rw [List.foldlM_cons, count_eq, List.foldl_cons, ← ih]
    rfl

/-! ## The two streak loops -/

/-- The streak loop over a list given by its first card and the others. -/
theorem straightStreak_cons (first : Card) (rest : List Card) :
    straightStreak (first :: rest) = .ok (rest.foldl Streak.next (.start first)) := by
  have hbody : ∀ i (h : i < (first :: rest).length) (s : Streak),
      (do return s.next (← Checked.read (.hand i) (first :: rest) i) : Except Access Streak) =
        .ok (s.next (first :: rest)[i]) := by
    intro i h s
    rw [Checked.read_eq h]
    rfl
  have hread : Checked.read (Access.hand 0) (first :: rest) 0 = .ok first := rfl
  rw [straightStreak, hread]
  exact Checked.forLoop_eq_foldl hbody (by simp) (.start first)

theorem foldl_flushNext (suit : Suit) (cards : List Card) (s : Streak × Card) :
    (cards.foldl (flushNext suit) s).1 = cards.foldl Streak.next s.1 := by
  induction cards generalizing s with
  | nil => rfl
  | cons card cards ih => rw [List.foldl_cons, ih]; rfl

theorem flushStreak_cons {suit : Suit} {hand : List Card} {first : Card} {rest : List Card}
    (h : (hand.filter fun card => card.suit = suit) = first :: rest) :
    flushStreak suit hand = .ok (rest.foldl (flushNext suit) (.start first, default)) := by
  have hrest : (filtered hand suit).begin.rest = first :: rest := by rw [FilterView.rest_begin]; exact h
  obtain ⟨-, hderef, it, hnext, hit⟩ := FilterView.Iterator.step_eq hrest Access.filtered
  rw [flushStreak, hderef]
  simp only [bind, Except.bind, hnext]
  rw [FilterView.Iterator.loop_eq, hit]

/-- An empty view has no first card. -/
theorem flushStreak_nil {suit : Suit} {hand : List Card}
    (h : (hand.filter fun card => card.suit = suit) = []) : flushStreak suit hand = .error .filtered := by
  have hrest : (filtered hand suit).begin.rest = [] := by rw [FilterView.rest_begin]; exact h
  have hend := FilterView.Iterator.rest_eq_nil hrest
  have hderef : (filtered hand suit).begin.deref Access.filtered = .error .filtered := by
    rw [FilterView.Iterator.deref, hend, Checked.read, List.getElem?_eq_none (Nat.le_refl _)]
  rw [flushStreak, hderef]
  rfl

/-! ## The checkers -/

/-- The access behind a failure of `HandEvaluator`. -/
def access : OutOfRange → Access
  | .handFront => .hand 0
  | .filteredBegin => .filtered

/-- The checker with its accesses answers as the one without, and fails where
that one fails. -/
def Refines (check : CheckFunction) (check' : HandEvaluator.CheckFunction) : Prop :=
  ∀ e hand, check e hand = (check' e hand).mapError access

theorem checkRoyalFlush_refines : Refines checkRoyalFlush HandEvaluator.checkRoyalFlush := by
  intro e hand
  unfold checkRoyalFlush HandEvaluator.checkRoyalFlush HandEvaluator.potentialFlushSuit
  rw [suitFor_eq]
  cases e.suitCountMapping.returnEnumFor fun value => decide (value > 4) <;> rfl

theorem checkStraightFlush_refines : Refines checkStraightFlush HandEvaluator.checkStraightFlush := by
  intro e hand
  unfold checkStraightFlush HandEvaluator.checkStraightFlush HandEvaluator.potentialFlushSuit
  rw [suitFor_eq]
  cases e.suitCountMapping.returnEnumFor fun value => decide (value > 4) with
  | none => rfl
  | some suit =>
    cases hcards : hand.filter fun card => card.suit = suit with
    | nil => simp only [flushStreak_nil hcards, bind, Except.bind, hcards]; rfl
    | cons first rest => simp only [flushStreak_cons hcards, bind, Except.bind, hcards]; rfl

/-- A checker that reports what a search through the rank counters finds. -/
theorem report_rankFor_refines (pred : UInt8 → Bool) (combination : CombinationType) :
    Refines (fun e _ => report (rankFor e pred) combination)
      fun e _ => .ok (if (e.rankCountMapping.returnEnumFor pred).isSome then some combination else none) := by
  intro e hand
  show report (rankFor e pred) combination = _
  rw [rankFor_eq]
  rfl

theorem checkFourOfAKind_refines : Refines checkFourOfAKind HandEvaluator.checkFourOfAKind :=
  report_rankFor_refines _ _

theorem checkThreeOfAKind_refines : Refines checkThreeOfAKind HandEvaluator.checkThreeOfAKind :=
  report_rankFor_refines _ _

theorem checkPair_refines : Refines checkPair HandEvaluator.checkPair := report_rankFor_refines _ _

theorem checkFullHouse_refines : Refines checkFullHouse HandEvaluator.checkFullHouse := by
  intro e hand
  rw [checkFullHouse, checkPair_refines, checkThreeOfAKind_refines]
  rfl

theorem checkFlush_refines : Refines checkFlush HandEvaluator.checkFlush := by
  intro e hand
  rw [checkFlush, suitFor_eq]
  rfl

theorem checkStraight_refines : Refines checkStraight HandEvaluator.checkStraight := by
  intro e hand
  cases hand with
  | nil => rfl
  | cons first rest =>
    rw [checkStraight, straightStreak_cons]
    rfl

theorem checkTwoPair_refines : Refines checkTwoPair HandEvaluator.checkTwoPair := by
  intro e hand
  unfold checkTwoPair HandEvaluator.checkTwoPair
  rw [rankFor_eq]
  cases e.rankCountMapping.returnEnumFor fun value => value == 2 with
  | none => rfl
  | some rank => exact report_rankFor_refines _ .twoPair e hand

theorem checkerFunctions_refine : List.Forall₂ Refines checkerFunctions HandEvaluator.checkerFunctions :=
  .cons checkRoyalFlush_refines (.cons checkStraightFlush_refines (.cons checkFourOfAKind_refines
    (.cons checkFullHouse_refines (.cons checkFlush_refines (.cons checkStraight_refines
      (.cons checkThreeOfAKind_refines (.cons checkTwoPair_refines (.cons checkPair_refines .nil))))))))

theorem dispatch_eq (e : HandEvaluator) (hand : List Card) {checkers : List CheckFunction}
    {checkers' : List HandEvaluator.CheckFunction} (h : List.Forall₂ Refines checkers checkers') :
    dispatch e hand checkers = (HandEvaluator.dispatch e hand checkers').mapError access := by
  induction h with
  | nil => rfl
  | @cons check check' _ _ hcheck _ ih =>
    rw [dispatch, HandEvaluator.dispatch, hcheck e hand]
    cases check' e hand with
    | error failure => rfl
    | ok result =>
      cases result with
      | none => exact ih
      | some combination => rfl

/-- **The accesses of `Evaluate`**: it answers as `HandEvaluator.evaluate`
does, and fails at the same access. -/
theorem evaluate_refines (e : HandEvaluator) (hand : List Card) :
    evaluate e hand = (e.evaluate hand).mapError access := by
  rw [evaluate, reset_eq]
  simp only [bind, Except.bind, foldlM_count_eq, dispatch_eq _ hand checkerFunctions_refine,
    HandEvaluator.evaluate]
  cases HandEvaluator.dispatch (hand.foldl HandEvaluator.count HandEvaluator.reset) hand
    HandEvaluator.checkerFunctions <;> rfl

/-! ## Every access in range -/

theorem evaluate_ok (e : HandEvaluator) {hand : List Card} (hne : hand ≠ []) :
    evaluate e hand = .ok (counted hand, combination hand) := by
  rw [evaluate_refines, PokerEngine.evaluate_eq e hne]
  rfl

/-- No checker before `CheckStraight` succeeds on the empty hand. -/
theorem evaluate_nil (e : HandEvaluator) : evaluate e [] = .error (.hand 0) := by
  rw [evaluate_refines]
  rfl

/-- **Where every access of `Evaluate` is in range**: on every hand but the
empty one. -/
theorem evaluate_inRange_iff (e : HandEvaluator) (hand : List Card) :
    (∃ after combination, evaluate e hand = .ok (after, combination)) ↔ hand ≠ [] := by
  constructor
  · rintro ⟨after, combination, h⟩ rfl
    rw [evaluate_nil] at h
    cases h
  · intro hne
    exact ⟨_, _, evaluate_ok e hne⟩

/-- `CheckStraight` reads the first card of a hand that has none. -/
theorem evaluate_emptyHand : evaluate HandEvaluator.reset [] = .error (.hand 0) ∧
    ¬ ∃ after combination, evaluate HandEvaluator.reset [] = .ok (after, combination) := by
  refine ⟨evaluate_nil _, ?_⟩
  rintro ⟨after, combination, h⟩
  rw [evaluate_nil] at h
  cases h

end Indexed

end HandEvaluator

end PokerEngine
