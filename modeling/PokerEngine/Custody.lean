/-
Tokens held at places: no token at two places or twice at one, and what handing
tokens over does to that.
-/
import Mathlib.Data.List.Perm.Subperm
import Mathlib.Logic.ExistsUnique

namespace PokerEngine.Custody

variable {Place Token : Type*}

/-- No token is held at two places, or twice at one. -/
structure Exclusive (held : Place → List Token) : Prop where
  nodup : ∀ p, (held p).Nodup
  apart : ∀ p q t, t ∈ held p → t ∈ held q → p = q

/-- The token is held somewhere. -/
def Held (held : Place → List Token) (t : Token) : Prop := ∃ p, t ∈ held p

/-- A token that is held is held at exactly one place. -/
theorem Exclusive.existsUnique {held : Place → List Token} {t : Token} (h : Exclusive held) (ht : Held held t) :
    ∃! p, t ∈ held p := by
  obtain ⟨p, hp⟩ := ht
  exact ⟨p, hp, fun q hq => h.apart q p t hq hp⟩

theorem Exclusive.of_empty {held : Place → List Token} (h : ∀ p, held p = []) : Exclusive held where
  nodup p := by rw [h p]; exact .nil
  apart p q t hp := by rw [h p] at hp; simp at hp

/-- How the tokens at the places change: some are given up, all of them `lost`,
or some go from one place to another. -/
inductive Handover (lost : Token → Prop) (held held' : Place → List Token) : Prop
  | release (sub : ∀ p, (held' p).Subperm (held p)) (kept : ∀ p, ∀ t ∈ held p, ¬ lost t → t ∈ held' p)
  | transfer (p q : Place) (ts : List Token) (apart : p ≠ q) (giver : (held p).Perm (ts ++ held' p))
      (taker : (held' q).Perm (ts ++ held q)) (others : ∀ r, r ≠ p → r ≠ q → held' r = held r)

variable {lost : Token → Prop} {held held' : Place → List Token}

theorem Handover.same (h : ∀ p, (held' p).Perm (held p)) : Handover lost held held' :=
  .release (fun p => (h p).subperm) fun p _ ht _ => (h p).mem_iff.mpr ht

/-- Tokens come from where tokens were. -/
theorem Handover.origin (h : Handover lost held held') {t : Token} (ht : Held held' t) : Held held t := by
  obtain ⟨r, hr⟩ := ht
  cases h with
  | release sub => exact ⟨r, (sub r).subset hr⟩
  | transfer p q ts apart giver taker others =>
    by_cases hp : r = p
    · exact ⟨p, giver.mem_iff.mpr (List.mem_append_right _ (hp ▸ hr))⟩
    · by_cases hq : r = q
      · rw [hq, taker.mem_iff] at hr
        rcases List.mem_append.mp hr with hr | hr
        · exact ⟨p, giver.mem_iff.mpr (List.mem_append_left _ hr)⟩
        · exact ⟨q, hr⟩
      · exact ⟨r, others r hp hq ▸ hr⟩

/-- Only lost tokens are given up. -/
theorem Handover.keeps (h : Handover lost held held') {t : Token} (ht : Held held t) (hlost : ¬ lost t) :
    Held held' t := by
  obtain ⟨r, hr⟩ := ht
  cases h with
  | release _ kept => exact ⟨r, kept r t hr hlost⟩
  | transfer p q ts apart giver taker others =>
    by_cases hp : r = p
    · rw [hp, giver.mem_iff] at hr
      rcases List.mem_append.mp hr with hr | hr
      · exact ⟨q, taker.mem_iff.mpr (List.mem_append_left _ hr)⟩
      · exact ⟨p, hr⟩
    · by_cases hq : r = q
      · exact ⟨q, taker.mem_iff.mpr (List.mem_append_right _ (hq ▸ hr))⟩
      · exact ⟨r, (others r hp hq).symm ▸ hr⟩

/-- **Handing over keeps tokens apart.** -/
theorem Handover.exclusive (h : Handover lost held held') (he : Exclusive held) : Exclusive held' := by
  cases h with
  | release sub =>
    refine ⟨fun p => ?_, fun p q t hp hq => he.apart p q t ((sub p).subset hp) ((sub q).subset hq)⟩
    obtain ⟨l, hperm, hsub⟩ := sub p
    exact hperm.nodup_iff.mp (hsub.nodup (he.nodup p))
  | transfer p q ts apart giver taker others =>
    obtain ⟨hts, hkeep, hdisjoint⟩ := List.nodup_append.mp (giver.nodup_iff.mp (he.nodup p))
    have hts_mem : ∀ t ∈ ts, t ∈ held p := fun t ht => giver.mem_iff.mpr (List.mem_append_left _ ht)
    -- the place a token is at now tells the place it was at: `p`, for those handed over
    have hwas : ∀ r t, t ∈ held' r → t ∈ held r ∧ t ∉ ts ∨ r = q ∧ t ∈ ts := by
      intro r t ht
      by_cases hp : r = p
      · subst hp
        exact .inl ⟨giver.mem_iff.mpr (List.mem_append_right _ ht), fun h => hdisjoint t h t ht rfl⟩
      · by_cases hq : r = q
        · rw [hq, taker.mem_iff] at ht
          rcases List.mem_append.mp ht with h | h
          · exact .inr ⟨hq, h⟩
          · exact .inl ⟨hq ▸ h, fun h' => apart (he.apart p q t (hts_mem t h') h)⟩
        · rw [others r hp hq] at ht
          exact .inl ⟨ht, fun h' => hp (he.apart r p t ht (hts_mem t h'))⟩
    refine ⟨fun r => ?_, fun r r' t hr hr' => ?_⟩
    · by_cases hp : r = p
      · exact hp ▸ hkeep
      · by_cases hq : r = q
        · rw [hq, taker.nodup_iff, List.nodup_append]
          exact ⟨hts, he.nodup q,
            fun t ht t' ht' heq => apart (he.apart p q t (hts_mem t ht) (heq ▸ ht'))⟩
        · rw [others r hp hq]
          exact he.nodup r
    · rcases hwas r t hr with ⟨h, hn⟩ | ⟨rfl, h⟩
      · rcases hwas r' t hr' with ⟨h', -⟩ | ⟨-, h'⟩
        · exact he.apart r r' t h h'
        · exact absurd h' hn
      · rcases hwas r' t hr' with ⟨-, hn⟩ | ⟨rfl, -⟩
        · exact absurd h hn
        · rfl

/-- A token that is held nowhere comes to a place. -/
theorem Exclusive.receive (he : Exclusive held) {q : Place} {t : Token} (fresh : ¬ Held held t)
    (taker : (held' q).Perm (t :: held q)) (others : ∀ r, r ≠ q → held' r = held r) : Exclusive held' := by
  have hwas : ∀ r x, x ∈ held' r → x ∈ held r ∨ r = q ∧ x = t := by
    intro r x hx
    by_cases hq : r = q
    · rw [hq, taker.mem_iff] at hx
      rcases List.mem_cons.mp hx with h | h
      · exact .inr ⟨hq, h⟩
      · exact .inl (hq ▸ h)
    · exact .inl (others r hq ▸ hx)
  refine ⟨fun r => ?_, fun r r' x hr hr' => ?_⟩
  · by_cases hq : r = q
    · rw [hq, taker.nodup_iff, List.nodup_cons]
      exact ⟨fun h => fresh ⟨q, h⟩, he.nodup q⟩
    · rw [others r hq]
      exact he.nodup r
  · rcases hwas r x hr with h | ⟨rfl, rfl⟩
    · rcases hwas r' x hr' with h' | ⟨-, rfl⟩
      · exact he.apart r r' x h h'
      · exact absurd ⟨r, h⟩ fresh
    · rcases hwas r' x hr' with h' | ⟨rfl, -⟩
      · exact absurd ⟨r', h'⟩ fresh
      · rfl

end PokerEngine.Custody
