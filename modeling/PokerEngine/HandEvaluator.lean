/-
The hand evaluator (`hand_evaluator.h`, `hand_evaluator.cc`): two mappings of
8-bit counters, nine checkers, and the dispatch over them.

An element access outside its range is undefined in the source; here the
checker returns the access that failed.
-/
import Mathlib.Data.UInt
import PokerEngine.Card

namespace PokerEngine

open Card (Suit Rank)

/-- `CombinationType`, from best to worst. -/
inductive CombinationType
  | royalFlush | straightFlush | fourOfAKind | fullHouse | flush | straight | threeOfAKind
  | twoPair | pair | highCard
  deriving DecidableEq, Repr

/-- The underlying number of a combination: the smaller, the better. -/
def CombinationType.toNat : CombinationType → Nat
  | .royalFlush => 0 | .straightFlush => 1 | .fourOfAKind => 2 | .fullHouse => 3 | .flush => 4
  | .straight => 5 | .threeOfAKind => 6 | .twoPair => 7 | .pair => 8 | .highCard => 9

/-- An element access outside its range: `hand[0]` of an empty hand, or the
first card of an empty filtered view. -/
inductive OutOfRange
  | handFront | filteredBegin
  deriving DecidableEq, Repr

/-- `HandEvaluator`: how often each suit and each rank appears in the hand,
counted in `u8`. -/
structure HandEvaluator where
  suitCountMapping : EnumIndexableArray Suit UInt8 4
  rankCountMapping : EnumIndexableArray Rank UInt8 13

/-- The loop state of the two streak scans. -/
structure Streak where
  previousRank : Rank
  consecutiveCounter : UInt8
  maxConsecutiveCounter : UInt8
  deriving DecidableEq, Repr

/-- Before the loop: the first card is the previous one, both counters are 0. -/
def Streak.start (first : Card) : Streak := ⟨first.rank, 0, 0⟩

/-- One iteration over `card`. -/
def Streak.next (s : Streak) (card : Card) : Streak :=
  if card.rank.toNat = s.previousRank.toNat + 1 then
    { previousRank := card.rank
      consecutiveCounter := s.consecutiveCounter + 1
      maxConsecutiveCounter := max s.maxConsecutiveCounter (s.consecutiveCounter + 1) }
  else
    { s with previousRank := card.rank, consecutiveCounter := 0 }

namespace HandEvaluator

/-- `check_return_type`, or the access that failed. -/
abbrev CheckResult := Except OutOfRange (Option CombinationType)

/-- `check_function`. -/
abbrev CheckFunction := HandEvaluator → List Card → CheckResult

/-- The first suit counted more than four times. -/
def potentialFlushSuit (e : HandEvaluator) : Option Suit :=
  e.suitCountMapping.returnEnumFor fun value => decide (value > 4)

def checkRoyalFlush : CheckFunction := fun e hand =>
  match e.potentialFlushSuit with
  | none => .ok none
  | some suit =>
    let contains := fun rank => decide ((⟨suit, rank⟩ : Card) ∈ hand)
    .ok (if contains .ace && contains .king && contains .queen && contains .jack && contains .ten then
      some .royalFlush else none)

def checkStraightFlush : CheckFunction := fun e hand =>
  match e.potentialFlushSuit with
  | none => .ok none
  | some suit =>
    match hand.filter fun card => card.suit = suit with
    | [] => .error .filteredBegin
    | first :: rest =>
      -- The scan's result is computed and then not looked at.
      let streak := rest.foldl Streak.next (.start first)
      let _result := decide (streak.maxConsecutiveCounter ≥ 4)
      .ok (some .straightFlush)

def checkFourOfAKind : CheckFunction := fun e _ =>
  .ok (if (e.rankCountMapping.returnEnumFor fun value => value == 4).isSome then
    some .fourOfAKind else none)

def checkThreeOfAKind : CheckFunction := fun e _ =>
  -- The source's label here is `kFourOfAKind`.
  .ok (if (e.rankCountMapping.returnEnumFor fun value => value == 3).isSome then
    some .fourOfAKind else none)

def checkPair : CheckFunction := fun e _ =>
  .ok (if (e.rankCountMapping.returnEnumFor fun value => value == 2).isSome then
    some .pair else none)

def checkFullHouse : CheckFunction := fun e hand => do
  let pairResult ← checkPair e hand
  let tripletResult ← checkThreeOfAKind e hand
  return if pairResult.isSome && tripletResult.isSome then some .fullHouse else none

def checkFlush : CheckFunction := fun e _ =>
  .ok (if (e.suitCountMapping.returnEnumFor fun value => value == 5).isSome then
    some .flush else none)

def checkStraight : CheckFunction := fun _ hand =>
  match hand with
  | [] => .error .handFront
  | first :: rest =>
    let streak := rest.foldl Streak.next (.start first)
    .ok (if streak.maxConsecutiveCounter ≥ 4 then some .straight else none)

def checkTwoPair : CheckFunction := fun e _ =>
  match e.rankCountMapping.returnEnumFor fun value => value == 2 with
  | none => .ok none
  | some rank =>
    let firstPairRank := UInt8.ofNat rank.toNat
    -- The predicate sees a count, and compares it with the first pair's rank.
    .ok (if (e.rankCountMapping.returnEnumFor fun value =>
        if value == firstPairRank then false else value == 2).isSome then
      some .twoPair else none)

/-- `checker_functions`. -/
def checkerFunctions : List CheckFunction :=
  [checkRoyalFlush, checkStraightFlush, checkFourOfAKind, checkFullHouse, checkFlush,
    checkStraight, checkThreeOfAKind, checkTwoPair, checkPair]

/-- The first of `checkers` that succeeds on the hand decides. -/
def dispatch (e : HandEvaluator) (hand : List Card) : List CheckFunction → Except OutOfRange CombinationType
  | [] => .ok .highCard
  | check :: checkers => do
    match ← check e hand with
    | some combination => return combination
    | none => dispatch e hand checkers

/-- Both mappings set to 0. -/
def reset : HandEvaluator := ⟨.filled 0, .filled 0⟩

/-- One iteration of the counting loop. -/
def count (e : HandEvaluator) (card : Card) : HandEvaluator :=
  ⟨e.suitCountMapping.modify card.suit (· + 1), e.rankCountMapping.modify card.rank (· + 1)⟩

/-- `Evaluate`: the evaluator with its mappings filled anew, and the result.
What the mappings held before is overwritten. -/
def evaluate (_ : HandEvaluator) (hand : List Card) : Except OutOfRange (HandEvaluator × CombinationType) := do
  let e := hand.foldl count reset
  let combination ← dispatch e hand checkerFunctions
  return (e, combination)

end HandEvaluator

end PokerEngine
