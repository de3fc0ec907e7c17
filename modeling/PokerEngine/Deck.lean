/-
The deck (`deck.h`, `deck.cc`): 52 cards, a shuffled view of their indices, and
a pointer to the next card to deal.

An access outside an array is undefined in the source and `none` here. What
`std::shuffle` does is a parameter: any permutation of the range it is given.
-/
import Mathlib.Algebra.Order.Ring.Nat
import PokerEngine.Card
import PokerEngine.Transition

namespace PokerEngine

open Card (Suit Rank gSuitNumber)

def gDeckSize : Nat := 52

/-- `Deck`. -/
structure Deck where
  cards : Vector Card gDeckSize
  shuffledView : Vector Nat gDeckSize
  dealPointer : Nat

namespace Deck

/-- What one call of `std::shuffle` does with a range of 52. -/
abbrev Shuffle := Equiv.Perm (Fin gDeckSize)

/-- `array[k] = x`, within the array. -/
def store {α : Type} {n : Nat} (v : Vector α n) (k : Nat) (x : α) : Option (Vector α n) :=
  if h : k < n then some (v.set k x h) else none

/-- The constructor's loops: over the ranks, and for each over the suits. -/
def fillCards (cards : Vector Card gDeckSize) : Option (Vector Card gDeckSize) :=
  (List.finRange 13).foldlM (fun cards i =>
    (List.finRange 4).foldlM (fun cards j =>
      store cards (j.val + i.val * gSuitNumber)
        ⟨EnumClass.numbering.symm j, EnumClass.numbering.symm i⟩) cards) cards

/-- `Reshuffle`: the indices in order, then shuffled; the pointer at the start. -/
def reshuffle (d : Deck) (shuffle : Shuffle) : Deck :=
  let iota : Vector Nat gDeckSize := Vector.ofFn fun i => i.val
  { d with
    shuffledView := Vector.ofFn fun i => iota[shuffle i]
    dealPointer := 0 }

/-- `Deck()`. The members hold default values before the body runs. -/
def construct (shuffle : Shuffle) : Option Deck := do
  let cards ← fillCards (Vector.replicate gDeckSize default)
  return reshuffle ⟨cards, Vector.replicate gDeckSize 0, 0⟩ shuffle

/-- `Deal`: the card or `nullopt`, and the deck after the call. -/
def deal (d : Deck) : Option (Option Card × Deck) :=
  if d.dealPointer < gDeckSize then do
    let index ← d.shuffledView[d.dealPointer]?
    let card ← d.cards[index]?
    return (some card, { d with dealPointer := d.dealPointer + 1 })
  else
    some (none, d)

/-- `AnyCardsLeft`. -/
def anyCardsLeft (d : Deck) : Bool := d.dealPointer < gDeckSize

/-- A call on a deck; a reshuffle comes with what its `std::shuffle` does. -/
inductive Call
  | deal
  | reshuffle (shuffle : Shuffle)
  | anyCardsLeft

/-- A deck in use, with the answers of `Deal` since the last (re)shuffle. -/
structure Session where
  deck : Deck
  dealt : List (Option Card)

def Session.call (s : Session) : Call → Option Session
  | .deal => do
    let (answer, deck) ← s.deck.deal
    return ⟨deck, s.dealt ++ [answer]⟩
  | .reshuffle shuffle => some ⟨s.deck.reshuffle shuffle, []⟩
  | .anyCardsLeft => some s

/-- A deck constructed and then called with `calls`. -/
def session (shuffle : Shuffle) (calls : List Call) : Option Session := do
  let deck ← construct shuffle
  Transition.run Session.call ⟨deck, []⟩ calls

end Deck

end PokerEngine
