/-
Playing cards (`card.h`, `card.cc`): suits, ranks, and the order of cards, by
rank first and then by suit.
-/
import Mathlib.Order.Basic
import Mathlib.Order.RelClasses
import Mathlib.Data.Fintype.OfMap
import Mathlib.Data.Fintype.EquivFin
import PokerEngine.EnumIndexableArray

namespace PokerEngine

/-- `Card::Suit`, in the order of the underlying numbers. -/
inductive Card.Suit
  | spades | clubs | diamonds | hearts
  deriving DecidableEq, Repr

/-- `Card::Rank`, in the order of the underlying numbers. -/
inductive Card.Rank
  | two | three | four | five | six | seven | eighth | nine | ten | jack | queen | king | ace
  deriving DecidableEq, Repr

open Card (Suit Rank)

namespace Card

def gSuitNumber : Nat := 4

def gRankNumber : Nat := 13

def Suit.toFin : Suit → Fin 4
  | .spades => 0 | .clubs => 1 | .diamonds => 2 | .hearts => 3

def Suit.ofFin : Fin 4 → Suit
  | 0 => .spades | 1 => .clubs | 2 => .diamonds | 3 => .hearts

def Rank.toFin : Rank → Fin 13
  | .two => 0 | .three => 1 | .four => 2 | .five => 3 | .six => 4 | .seven => 5 | .eighth => 6
  | .nine => 7 | .ten => 8 | .jack => 9 | .queen => 10 | .king => 11 | .ace => 12

def Rank.ofFin : Fin 13 → Rank
  | 0 => .two | 1 => .three | 2 => .four | 3 => .five | 4 => .six | 5 => .seven | 6 => .eighth
  | 7 => .nine | 8 => .ten | 9 => .jack | 10 => .queen | 11 => .king | 12 => .ace

instance : EnumClass Suit 4 where
  numbering := ⟨Suit.toFin, Suit.ofFin, by rintro ⟨⟩ <;> rfl, by unfold Function.RightInverse; decide⟩

instance : EnumClass Rank 13 where
  numbering := ⟨Rank.toFin, Rank.ofFin, by rintro ⟨⟩ <;> rfl, by unfold Function.RightInverse; decide⟩

instance : Fintype Suit := .ofEquiv (Fin 4) EnumClass.numbering.symm

instance : Fintype Rank := .ofEquiv (Fin 13) EnumClass.numbering.symm

/-- The underlying number of a suit, `0` to `3`. -/
def Suit.toNat (s : Suit) : Nat := EnumClass.toUnderlying s

/-- The underlying number of a rank, `0` (two) to `12` (ace). -/
def Rank.toNat (r : Rank) : Nat := EnumClass.toUnderlying r

theorem Suit.toNat_lt (s : Suit) : s.toNat < 4 := s.toFin.isLt

theorem Rank.toNat_lt (r : Rank) : r.toNat < 13 := r.toFin.isLt

theorem Suit.toNat_injective : Function.Injective Suit.toNat :=
  fun _ _ h => EnumClass.numbering.injective (Fin.ext h)

theorem Rank.toNat_injective : Function.Injective Rank.toNat :=
  fun _ _ h => EnumClass.numbering.injective (Fin.ext h)

@[simp] theorem Suit.toNat_inj {s t : Suit} : s.toNat = t.toNat ↔ s = t := Suit.toNat_injective.eq_iff

@[simp] theorem Rank.toNat_inj {r t : Rank} : r.toNat = t.toNat ↔ r = t := Rank.toNat_injective.eq_iff

end Card

/-- `Card`. `operator==` is equality of both members. -/
structure Card where
  suit : Suit
  rank : Rank
  deriving DecidableEq, Repr

namespace Card

/-- A default-constructed card, `Card{}`. -/
instance : Inhabited Card := ⟨⟨.spades, .two⟩⟩

/-- `Card::operator<`: by rank, and by suit between cards of one rank. -/
def lt (c other : Card) : Prop :=
  if c.rank = other.rank then c.suit.toNat < other.suit.toNat else c.rank.toNat < other.rank.toNat

/-- `Card::operator>`. -/
def gt (c other : Card) : Prop :=
  if c.rank = other.rank then c.suit.toNat > other.suit.toNat else c.rank.toNat > other.rank.toNat

instance : DecidableRel lt := fun c other => by unfold lt; infer_instance

instance : DecidableRel gt := fun c other => by unfold gt; infer_instance

/-- `Card::value()`. -/
def value (c : Card) : Nat := c.suit.toNat * gRankNumber + c.rank.toNat

/-- A hand listed in ascending `Card::operator<` order: no card is less than
one before it. -/
def Ascending (hand : List Card) : Prop := hand.Pairwise fun c d => ¬ d.lt c

instance (hand : List Card) : Decidable (Ascending hand) := by unfold Ascending; infer_instance

theorem rank_le_of_not_lt {c d : Card} (h : ¬ d.lt c) : c.rank.toNat ≤ d.rank.toNat := by
  unfold lt at h
  split at h
  · next heq => rw [heq]
  · omega

/-- The ranks of an ascending hand never fall. -/
theorem Ascending.rank_le {hand : List Card} (h : Ascending hand) :
    hand.Pairwise fun c d => c.rank.toNat ≤ d.rank.toNat :=
  h.imp rank_le_of_not_lt

/-- Cards in ascending order, numbered. -/
def key (c : Card) : Nat := c.rank.toNat * gSuitNumber + c.suit.toNat

theorem lt_iff_key_lt {c d : Card} : c.lt d ↔ c.key < d.key := by
  have hc := c.suit.toNat_lt
  have hd := d.suit.toNat_lt
  unfold lt key gSuitNumber
  split
  · next hrank => rw [hrank]; omega
  · next hrank =>
    have hne : c.rank.toNat ≠ d.rank.toNat := fun h => hrank (Rank.toNat_inj.mp h)
    omega

theorem gt_iff_lt {c d : Card} : c.gt d ↔ d.lt c := by
  unfold gt lt
  by_cases hrank : c.rank = d.rank
  · simp [hrank]
  · simp [hrank, Ne.symm hrank]

theorem key_injective : Function.Injective key := by
  intro c d h
  have hc := c.suit.toNat_lt
  have hd := d.suit.toNat_lt
  unfold key gSuitNumber at h
  have hrank : c.rank = d.rank := Rank.toNat_inj.mp (by omega)
  have hsuit : c.suit = d.suit := Suit.toNat_inj.mp (by omega)
  cases c
  cases d
  exact congrArg₂ Card.mk hsuit hrank

instance : IsStrictTotalOrder Card lt where
  trichotomous c d hcd hdc := key_injective (by rw [lt_iff_key_lt] at hcd hdc; omega)
  irrefl c h := by rw [lt_iff_key_lt] at h; omega
  trans c d e hcd hde := by rw [lt_iff_key_lt] at *; omega

instance : IsStrictWeakOrder Card lt := isStrictWeakOrder_of_isOrderConnected

theorem incomp_iff_beq {c d : Card} : (¬ c.lt d ∧ ¬ d.lt c) ↔ (c == d) = true := by
  rw [beq_iff_eq]
  constructor
  · intro ⟨hcd, hdc⟩
    exact Std.Trichotomous.trichotomous c d hcd hdc
  · rintro rfl
    exact ⟨irrefl_of lt c, irrefl_of lt c⟩

end Card

end PokerEngine
