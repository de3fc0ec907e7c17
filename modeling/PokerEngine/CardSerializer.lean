/-
The card serializer (`card_serializer.h`, `card_serializer.cc`): a card is sent
as two characters, its suit's and its rank's.

The tables of characters are read in both directions. `charToSuit_eq_ok` and
`charToRank_eq_ok` say that each direction undoes the other; with them
`deserialize_eq` gives the answer to every string of characters.
-/
import Mathlib.Data.UInt
import Mathlib.Logic.Function.Basic
import PokerEngine.Card

namespace PokerEngine

open Card (Suit Rank)

namespace CardSerializer

/-- What the parsing throws: a `std::exception`, with the text it was made
with, or the `std::out_of_range` of an access behind the last character.
`catch (const std::exception&)` takes both. -/
inductive Thrown
  | exception (what : Option String)
  | outOfRange (index : Nat)
  deriving DecidableEq, Repr

/-- `CharToSuit`. -/
def charToSuit (character : UInt8) : Except Thrown Suit :=
  match Char.ofUInt8 character with
  | 'S' => .ok .spades
  | 'C' => .ok .clubs
  | 'D' => .ok .diamonds
  | 'H' => .ok .hearts
  | _ => .error (.exception (some "Could not parse the character to suit"))

/-- `CharToRank`. -/
def charToRank (character : UInt8) : Except Thrown Rank :=
  match Char.ofUInt8 character with
  | '2' => .ok .two
  | '3' => .ok .three
  | '4' => .ok .four
  | '5' => .ok .five
  | '6' => .ok .six
  | '7' => .ok .seven
  | '8' => .ok .eighth
  | '9' => .ok .nine
  | 'T' => .ok .ten
  | 'A' => .ok .ace
  | 'J' => .ok .jack
  | 'Q' => .ok .queen
  | 'K' => .ok .king
  | _ => .error (.exception none)

/-- `SuitToChar`. -/
def suitToChar : Suit → UInt8
  | .spades => 'S'.toUInt8
  | .clubs => 'C'.toUInt8
  | .diamonds => 'D'.toUInt8
  | .hearts => 'H'.toUInt8

/-- `RankToChar`. -/
def rankToChar : Rank → UInt8
  | .two => '2'.toUInt8
  | .three => '3'.toUInt8
  | .four => '4'.toUInt8
  | .five => '5'.toUInt8
  | .six => '6'.toUInt8
  | .seven => '7'.toUInt8
  | .eighth => '8'.toUInt8
  | .nine => '9'.toUInt8
  | .ten => 'T'.toUInt8
  | .jack => 'J'.toUInt8
  | .queen => 'Q'.toUInt8
  | .king => 'K'.toUInt8
  | .ace => 'A'.toUInt8

/-- `Serialize`. -/
def serialize (card : Card) : List UInt8 := [suitToChar card.suit, rankToChar card.rank]

/-- `data.at(index)`. -/
def charAt (data : List UInt8) (index : Nat) : Except Thrown UInt8 :=
  match data[index]? with
  | some character => .ok character
  | none => .error (.outOfRange index)

/-- What a call of `Deserialize` leaves behind: the card, or `std::nullopt`;
the line it printed; the exception it caught on the way. -/
structure Reply where
  card : Option Card
  printed : String
  caught : Option Thrown
  deriving DecidableEq, Repr

/-- The line printed for a string that is not a card's. -/
def couldNotParse (character : UInt8) (what : String) : String :=
  "Could not parse character \"" ++ String.singleton (Char.ofUInt8 character) ++ "\"to " ++ what ++ ".\n"

/-- `Deserialize`, or the exception that leaves it. Each `try` block is the
scrutinee of a `match`, its handler the branch `.error`. -/
def deserialize (data : List UInt8) : Except Thrown Reply :=
  if data.length ≠ 2 then .ok ⟨none, "", none⟩
  else
    match charAt data 0 >>= charToSuit with
    | .error e => do
      let character ← charAt data 0
      return ⟨none, couldNotParse character "suit", some e⟩
    | .ok suit =>
      match charAt data 1 >>= charToRank with
      | .error e => do
        -- The line about the rank shows the suit's character.
        let character ← charAt data 0
        return ⟨none, couldNotParse character "rank", some e⟩
      | .ok rank => .ok ⟨some ⟨suit, rank⟩, "", none⟩

/-! ## The tables -/

theorem eq_toUInt8 {character : UInt8} {c : Char} (h : Char.ofUInt8 character = c) : character = c.toUInt8 := by
  subst h
  exact (UInt8.toUInt8_toUInt32 character).symm

theorem charToSuit_eq_ok {character : UInt8} {suit : Suit} :
    charToSuit character = .ok suit ↔ character = suitToChar suit := by
  constructor
  · intro h
    unfold charToSuit at h
    split at h <;> cases h <;> exact eq_toUInt8 ‹_›
  · rintro rfl
    cases suit <;> rfl

theorem charToRank_eq_ok {character : UInt8} {rank : Rank} :
    charToRank character = .ok rank ↔ character = rankToChar rank := by
  constructor
  · intro h
    unfold charToRank at h
    split at h <;> cases h <;> exact eq_toUInt8 ‹_›
  · rintro rfl
    cases rank <;> rfl

theorem charToSuit_error {character : UInt8} (h : ∀ suit, character ≠ suitToChar suit) :
    charToSuit character = .error (.exception (some "Could not parse the character to suit")) := by
  cases hc : charToSuit character with
  | ok suit => exact absurd (charToSuit_eq_ok.mp hc) (h suit)
  | error e =>
    unfold charToSuit at hc
    split at hc <;> cases hc
    rfl

theorem charToRank_error {character : UInt8} (h : ∀ rank, character ≠ rankToChar rank) :
    charToRank character = .error (.exception none) := by
  cases hc : charToRank character with
  | ok rank => exact absurd (charToRank_eq_ok.mp hc) (h rank)
  | error e =>
    unfold charToRank at hc
    split at hc <;> cases hc
    rfl

/-! ## The answers -/

theorem deserialize_wrongLength {data : List UInt8} (h : data.length ≠ 2) :
    deserialize data = .ok ⟨none, "", none⟩ := if_pos h

theorem deserialize_notSuit {x : UInt8} (y : UInt8) (h : ∀ suit, x ≠ suitToChar suit) :
    deserialize [x, y] = .ok ⟨none, couldNotParse x "suit",
      some (.exception (some "Could not parse the character to suit"))⟩ := by
  have hx : charAt [x, y] 0 >>= charToSuit = charToSuit x := rfl
  unfold deserialize
  rw [if_neg (by simp), hx, charToSuit_error h]
  rfl

/-- Where the rank is wrong, the line printed shows the suit. -/
theorem deserialize_notRank (suit : Suit) {y : UInt8} (h : ∀ rank, y ≠ rankToChar rank) :
    deserialize [suitToChar suit, y] =
      .ok ⟨none, couldNotParse (suitToChar suit) "rank", some (.exception none)⟩ := by
  have hx : charAt [suitToChar suit, y] 0 >>= charToSuit = .ok suit := charToSuit_eq_ok.mpr rfl
  have hy : charAt [suitToChar suit, y] 1 >>= charToRank = charToRank y := rfl
  unfold deserialize
  rw [if_neg (by simp), hx, hy, charToRank_error h]
  rfl

theorem deserialize_serialize (card : Card) : deserialize (serialize card) = .ok ⟨some card, "", none⟩ := by
  have hx : charAt (serialize card) 0 >>= charToSuit = .ok card.suit := charToSuit_eq_ok.mpr rfl
  have hy : charAt (serialize card) 1 >>= charToRank = .ok card.rank := charToRank_eq_ok.mpr rfl
  unfold deserialize
  rw [if_neg (by simp [serialize]), hx, hy]

theorem serialize_injective : Function.Injective serialize := by
  intro c d h
  have := deserialize_serialize c
  rw [h, deserialize_serialize d] at this
  cases this
  rfl

/-- A string that is no card's encoding is refused, and no character behind
its end is read. -/
theorem deserialize_refuses {data : List UInt8} (h : ∀ card, data ≠ serialize card) :
    ∃ reply, deserialize data = .ok reply ∧ reply.card = none ∧
      ∀ index, reply.caught ≠ some (.outOfRange index) := by
  by_cases hlen : data.length = 2
  · obtain ⟨x, y, rfl⟩ := List.length_eq_two.mp hlen
    by_cases hx : ∃ suit, x = suitToChar suit
    · obtain ⟨suit, rfl⟩ := hx
      have hy : ∀ rank, y ≠ rankToChar rank := fun rank hy => h ⟨suit, rank⟩ (by rw [hy]; rfl)
      exact ⟨_, deserialize_notRank suit hy, rfl, by simp⟩
    · exact ⟨_, deserialize_notSuit y fun suit hs => hx ⟨suit, hs⟩, rfl, by simp⟩
  · exact ⟨_, deserialize_wrongLength hlen, rfl, by simp⟩

/-- **A string is read as a card exactly when it is the card's encoding.** All
other strings are refused; no exception leaves the call, and no character
behind the end of a string is read. -/
theorem deserialize_card_iff :
    Function.Injective serialize ∧
      ∀ data, ∃ reply, deserialize data = .ok reply ∧
        (∀ index, reply.caught ≠ some (.outOfRange index)) ∧
        (∀ card, reply.card = some card ↔ data = serialize card) ∧
        (reply.card = none ↔ ∀ card, data ≠ serialize card) := by
  refine ⟨serialize_injective, fun data => ?_⟩
  by_cases h : ∃ card, data = serialize card
  · obtain ⟨card, rfl⟩ := h
    refine ⟨_, deserialize_serialize card, by simp, fun d => ?_, by simp⟩
    rw [serialize_injective.eq_iff, Option.some.injEq]
  · have hne : ∀ card, data ≠ serialize card := fun card hc => h ⟨card, hc⟩
    obtain ⟨reply, hreply, hnone, hcaught⟩ := deserialize_refuses hne
    refine ⟨reply, hreply, hcaught, fun card => ?_, iff_of_true hnone hne⟩
    simp [hnone, hne card]

/-- Swapped, in lower case, or with a third character: refused. -/
example :
    (deserialize ['A'.toUInt8, 'S'.toUInt8]).map Reply.card = .ok none ∧
      (deserialize ['s'.toUInt8, 'A'.toUInt8]).map Reply.card = .ok none ∧
      (deserialize ['S'.toUInt8, 'A'.toUInt8, 0]).map Reply.card = .ok none := by decide

end CardSerializer

end PokerEngine
