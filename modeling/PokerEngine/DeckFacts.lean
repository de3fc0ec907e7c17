/-
What a deck deals, over every sequence of calls and every shuffle.

The abstract deck is a list of the 52 cards in the order they will be dealt
(`order`); the code's deck is at position `dealPointer` of it (`Stacked`,
`Session.Inv`). From that: no card is dealt twice, the 52nd deal is the last
one that returns a card, and all 52 have then been dealt.
-/
import Mathlib.Logic.Equiv.Fin.Basic
import PokerEngine.Deck

namespace PokerEngine

open Card (Suit Rank gSuitNumber)

namespace Deck

/-- The card the constructor puts in slot `k`. -/
def cardAt (k : Fin gDeckSize) : Card :=
  ⟨EnumClass.numbering.symm ⟨k.val % 4, by omega⟩,
    EnumClass.numbering.symm ⟨k.val / 4, by have := k.isLt; unfold gDeckSize at this; omega⟩⟩

/-- The slot of a card: `suit + rank * gSuitNumber`. -/
def slotOf (c : Card) : Fin gDeckSize :=
  ⟨c.suit.toNat + c.rank.toNat * gSuitNumber, by
    have := c.suit.toNat_lt
    have := c.rank.toNat_lt
    unfold gSuitNumber gDeckSize
    omega⟩

/-- Slots and cards correspond one to one. -/
def slots : Fin gDeckSize ≃ Card where
  toFun := cardAt
  invFun := slotOf
  left_inv k := by
    apply Fin.ext
    simp only [slotOf, cardAt, Suit.toNat, Rank.toNat, EnumClass.toUnderlying, Equiv.apply_symm_apply, gSuitNumber]
    omega
  right_inv c := by
    have hs := c.suit.toNat_lt
    obtain ⟨suit, rank⟩ := c
    simp only [cardAt, slotOf, gSuitNumber, Card.mk.injEq]
    refine ⟨?_, ?_⟩
    · rw [Equiv.symm_apply_eq]
      apply Fin.ext
      simp only [Suit.toNat, Rank.toNat, EnumClass.toUnderlying] at hs ⊢
      omega
    · rw [Equiv.symm_apply_eq]
      apply Fin.ext
      simp only [Suit.toNat, Rank.toNat, EnumClass.toUnderlying] at hs ⊢
      omega

/-- The constructor's loops stay within the array and fill every slot with its
card. -/
theorem fillCards_eq : fillCards (Vector.replicate gDeckSize default) = some (Vector.ofFn slots) := by
  rfl

/-- The cards in the order they are dealt after `shuffle`. -/
def order (shuffle : Shuffle) : List Card := List.ofFn fun i => slots (shuffle i)

theorem order_length (shuffle : Shuffle) : (order shuffle).length = gDeckSize := List.length_ofFn

theorem order_nodup (shuffle : Shuffle) : (order shuffle).Nodup :=
  List.nodup_ofFn.mpr (slots.injective.comp shuffle.injective)

theorem mem_order (shuffle : Shuffle) (c : Card) : c ∈ order shuffle :=
  (List.mem_ofFn' _ c).mpr ⟨shuffle.symm (slots.symm c), by simp⟩

@[simp] theorem reshuffle_cards (d : Deck) (σ : Shuffle) : (d.reshuffle σ).cards = d.cards := by
  simp only [reshuffle]

@[simp] theorem reshuffle_dealPointer (d : Deck) (σ : Shuffle) : (d.reshuffle σ).dealPointer = 0 := rfl

@[simp] theorem reshuffle_shuffledView (d : Deck) (σ : Shuffle) :
    (d.reshuffle σ).shuffledView = Vector.ofFn fun i => (σ i).val := by
  apply Vector.ext
  intro i hi
  rw [reshuffle, Vector.getElem_ofFn, Vector.getElem_ofFn]
  exact Vector.getElem_ofFn _

/-- The deck holds every card in its slot, and its view is `shuffle`. -/
structure Stacked (d : Deck) (shuffle : Shuffle) : Prop where
  cards : d.cards = Vector.ofFn slots
  view : d.shuffledView = Vector.ofFn fun i => (shuffle i).val

theorem construct_eq (shuffle : Shuffle) :
    ∃ d, construct shuffle = some d ∧ d.Stacked shuffle ∧ d.dealPointer = 0 := by
  simp only [construct, fillCards_eq]
  exact ⟨_, rfl, ⟨reshuffle_cards _ _, reshuffle_shuffledView _ _⟩, reshuffle_dealPointer _ _⟩

theorem Stacked.reshuffle {d : Deck} {σ : Shuffle} (h : d.Stacked σ) (τ : Shuffle) :
    (d.reshuffle τ).Stacked τ :=
  ⟨by rw [reshuffle_cards, h.cards], reshuffle_shuffledView d τ⟩

/-- `Deal` reads within both arrays; it answers with the next card of the
order and moves on, and past the end with `nullopt` and no move. -/
theorem Stacked.deal {d : Deck} {σ : Shuffle} (h : d.Stacked σ) (hle : d.dealPointer ≤ gDeckSize) :
    d.deal = some ((order σ)[d.dealPointer]?, { d with dealPointer := min (d.dealPointer + 1) gDeckSize }) := by
  unfold Deck.deal
  by_cases hlt : d.dealPointer < gDeckSize
  · have hmin : min (d.dealPointer + 1) gDeckSize = d.dealPointer + 1 := by omega
    have hcard : (order σ)[d.dealPointer]? = some (slots (σ ⟨d.dealPointer, hlt⟩)) := by
      rw [List.getElem?_eq_getElem (by rw [order_length]; exact hlt)]
      simp [order]
    have hview : d.shuffledView[d.dealPointer]? = some (σ ⟨d.dealPointer, hlt⟩).val := by
      rw [h.view, Vector.getElem?_eq_getElem hlt, Vector.getElem_ofFn]
    have hslot : d.cards[(σ ⟨d.dealPointer, hlt⟩).val]? = some (slots (σ ⟨d.dealPointer, hlt⟩)) := by
      rw [h.cards, Vector.getElem?_eq_getElem (σ _).isLt, Vector.getElem_ofFn]
    rw [if_pos hlt, hview, hcard, hmin]
    simp only [bind, Option.bind_some, hslot, pure]
  · have hmin : min (d.dealPointer + 1) gDeckSize = d.dealPointer := by omega
    have hnone : (order σ)[d.dealPointer]? = none :=
      List.getElem?_eq_none (by rw [order_length]; omega)
    simp [hlt, hmin, hnone]

/-! ## Sessions -/

/-- The deals since the last (re)shuffle went down the order, one card each,
and the pointer counts them up to 52. -/
structure Session.Inv (s : Session) (shuffle : Shuffle) : Prop where
  stacked : s.deck.Stacked shuffle
  pointer : s.deck.dealPointer = min s.dealt.length gDeckSize
  dealt : s.dealt = (List.range s.dealt.length).map fun k => (order shuffle)[k]?

theorem Session.Inv.deal {s : Session} {σ : Shuffle} (h : s.Inv σ) :
    ∃ s', s.call .deal = some s' ∧ s'.Inv σ ∧ s'.dealt.length = s.dealt.length + 1 := by
  have hle : s.deck.dealPointer ≤ gDeckSize := by rw [h.pointer]; omega
  have hdeal := h.stacked.deal hle
  refine ⟨⟨{ s.deck with dealPointer := min (s.deck.dealPointer + 1) gDeckSize },
    s.dealt ++ [(order σ)[s.deck.dealPointer]?]⟩, by simp only [Session.call, hdeal]; rfl,
    ⟨⟨h.stacked.cards, h.stacked.view⟩, ?_, ?_⟩, by simp⟩
  · simp only [List.length_append, List.length_cons, List.length_nil, h.pointer]
    omega
  · have hanswer : (order σ)[s.deck.dealPointer]? = (order σ)[s.dealt.length]? := by
      by_cases hlt : s.dealt.length < gDeckSize
      · rw [h.pointer, Nat.min_eq_left (by omega)]
      · rw [List.getElem?_eq_none (by rw [order_length, h.pointer]; omega),
          List.getElem?_eq_none (by rw [order_length]; omega)]
    simp only [List.length_append, List.length_cons, List.length_nil, List.range_succ, List.map_append,
      List.map_cons, List.map_nil, ← h.dealt, hanswer]

theorem Session.Inv.reshuffle {s : Session} {σ : Shuffle} (h : s.Inv σ) (τ : Shuffle) :
    (⟨s.deck.reshuffle τ, []⟩ : Session).Inv τ :=
  ⟨h.stacked.reshuffle τ, rfl, rfl⟩

/-- Every call keeps the invariant, and no call leaves an array. -/
theorem Session.Inv.call {s : Session} {σ : Shuffle} (h : s.Inv σ) (c : Call) :
    ∃ s' τ, s.call c = some s' ∧ s'.Inv τ := by
  cases c with
  | deal => obtain ⟨s', hs', hinv, -⟩ := h.deal; exact ⟨s', σ, hs', hinv⟩
  | reshuffle τ => exact ⟨_, τ, rfl, h.reshuffle τ⟩
  | anyCardsLeft => exact ⟨s, σ, rfl, h⟩

theorem Session.Inv.run {s : Session} {σ : Shuffle} (h : s.Inv σ) (calls : List Call) :
    ∃ s' τ, Transition.run Session.call s calls = some s' ∧ s'.Inv τ := by
  induction calls generalizing s σ with
  | nil => exact ⟨s, σ, rfl, h⟩
  | cons c calls ih =>
    obtain ⟨s', τ, hs', hinv⟩ := h.call c
    obtain ⟨t, ρ, ht, hinv⟩ := ih hinv
    exact ⟨t, ρ, Transition.run_cons_some.mpr ⟨s', hs', ht⟩, hinv⟩

/-- `n` deals in a row are answered, and counted. -/
theorem Session.Inv.deals {s : Session} {σ : Shuffle} (h : s.Inv σ) (n : Nat) :
    ∃ s', Transition.run Session.call s (List.replicate n .deal) = some s' ∧ s'.Inv σ ∧
      s'.dealt.length = s.dealt.length + n := by
  induction n generalizing s with
  | zero => exact ⟨s, rfl, h, rfl⟩
  | succ n ih =>
    obtain ⟨s', hs', hinv, hlen⟩ := h.deal
    obtain ⟨t, ht, hinv, hlen'⟩ := ih hinv
    exact ⟨t, Transition.run_cons_some.mpr ⟨s', hs', ht⟩, hinv, by omega⟩

section Inv

variable {s : Session} {σ : Shuffle} (h : s.Inv σ)
include h

theorem Session.Inv.getElem {k : Nat} (hk : k < s.dealt.length) : s.dealt[k] = (order σ)[k]? := by
  have hget : s.dealt[k]? = ((List.range s.dealt.length).map fun k => (order σ)[k]?)[k]? := by
    rw [← h.dealt]
  rw [List.getElem?_eq_getElem hk] at hget
  simpa [hk] using hget

/-- The `k`-th deal returned a card exactly when `k` is at most 52. -/
theorem Session.Inv.isSome_iff {k : Nat} (hk : k < s.dealt.length) :
    (s.dealt[k]).isSome = true ↔ k < gDeckSize := by
  rw [h.getElem hk, ← order_length σ]
  simp

/-- The cards returned are the first ones of the order. -/
theorem Session.Inv.cards : s.dealt.filterMap id = (order σ).take s.dealt.length := by
  rw [h.dealt]
  generalize s.dealt.length = n
  simp only [List.length_map, List.length_range]
  induction n with
  | zero => rfl
  | succ n ih =>
    rw [List.range_succ, List.map_append, List.filterMap_append, ih, List.take_add_one]
    cases hn : (order σ)[n]? <;> simp [hn]

theorem Session.Inv.nodup : (s.dealt.filterMap id).Nodup := by
  rw [h.cards]
  exact (order_nodup σ).sublist (List.take_sublist _ _)

/-- After 52 deals every card has been returned once. -/
theorem Session.Inv.all (hlen : gDeckSize ≤ s.dealt.length) (c : Card) : (s.dealt.filterMap id).count c = 1 := by
  rw [h.cards, List.take_of_length_le (by rw [order_length]; exact hlen)]
  exact List.count_eq_one_of_mem (order_nodup σ) (mem_order σ c)

/-- `AnyCardsLeft` foretells the next deal. -/
theorem Session.Inv.anyCardsLeft_iff :
    s.deck.anyCardsLeft = true ↔ ∃ card d, s.deck.deal = some (some card, d) := by
  have hle : s.deck.dealPointer ≤ gDeckSize := by rw [h.pointer]; omega
  rw [h.stacked.deal hle]
  simp only [anyCardsLeft, decide_eq_true_eq, Option.some.injEq, Prod.mk.injEq, exists_and_left,
    exists_eq', and_true, List.getElem?_eq_some_iff, order_length]
  constructor
  · exact fun hlt => ⟨_, hlt, rfl⟩
  · intro ⟨_, hlt, _⟩
    exact hlt

end Inv

/-- **A deck deals every card once.** For every shuffle and every sequence of
calls: no access leaves an array; the cards dealt since the last (re)shuffle
are different; the `k`-th deal returned a card exactly up to 52, and the
pointer never passes 52; after 52 deals each card has been returned once;
`AnyCardsLeft` says whether the next deal returns a card; and a reshuffle makes
all 52 available again. -/
theorem session_deals_each_once (shuffle : Shuffle) (calls : List Call) :
    ∃ s, session shuffle calls = some s ∧
      (s.dealt.filterMap id).Nodup ∧
      (∀ k (hk : k < s.dealt.length), (s.dealt[k]).isSome = true ↔ k < gDeckSize) ∧
      s.deck.dealPointer = min s.dealt.length gDeckSize ∧
      (gDeckSize ≤ s.dealt.length → ∀ c, (s.dealt.filterMap id).count c = 1) ∧
      (s.deck.anyCardsLeft = true ↔ ∃ card d, s.deck.deal = some (some card, d)) ∧
      ∀ τ, ∃ s', Transition.run Session.call s (.reshuffle τ :: List.replicate gDeckSize .deal) = some s' ∧
        s'.dealt.length = gDeckSize ∧ ∀ c, some c ∈ s'.dealt := by
  obtain ⟨d, hd, hstacked, hptr⟩ := construct_eq shuffle
  have hinit : (⟨d, []⟩ : Session).Inv shuffle := ⟨hstacked, by simpa using hptr, rfl⟩
  obtain ⟨s, σ, hs, hinv⟩ := hinit.run calls
  refine ⟨s, by simp only [session, hd]; exact hs, hinv.nodup, fun k hk => hinv.isSome_iff hk, hinv.pointer,
    hinv.all, hinv.anyCardsLeft_iff, fun τ => ?_⟩
  obtain ⟨s', hs', hinv', hlen⟩ := (hinv.reshuffle τ).deals gDeckSize
  simp only [List.length_nil, Nat.zero_add] at hlen
  refine ⟨s', Transition.run_cons_some.mpr ⟨_, rfl, hs'⟩, hlen, fun c => ?_⟩
  have hcount := hinv'.all hlen.ge c
  have hmem : c ∈ s'.dealt.filterMap id := List.count_pos_iff.mp (by rw [hcount]; exact Nat.one_pos)
  simpa using hmem

end Deck

end PokerEngine
