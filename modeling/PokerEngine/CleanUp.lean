/-
The clean-up of finished games, among any calls of `CreateMatchConductor`, a
call of `End`, and games in any state.

The clean-up itself is sound: it deletes only conductors that had finished, and
between clean-ups the vector holds the games not deleted, each with its own
thread, in the order they were made. What it does not do in every case is wait:
a conductor is deleted when another is assigned over it, before its thread is
joined.
-/
import Mathlib.Data.List.Nodup
import PokerEngine.MatchConductorManager
import PokerEngine.MatchConductorSteps
import PokerEngine.Transition

namespace PokerEngine

/-! ## Slots -/

namespace Slot

/-- A game's conductor with its own thread. -/
def full (g : GameId) : Slot := ⟨some g, some g⟩

/-- A pair that was moved from, or destroyed. -/
def vacated : Slot := ⟨none, none⟩

def pairs (gs : List GameId) : List Slot := gs.map full

end Slot

open Slot

theorem getElem?_mid {α : Type} (A : List α) (x : α) (B : List α) : (A ++ x :: B)[A.length]? = some x := by
  simp

theorem set_mid {α : Type} (A : List α) (x y : α) (B : List α) : (A ++ x :: B).set A.length y = A ++ y :: B := by
  simp

theorem split_of_getElem? {α : Type} {l : List α} {i : Nat} {x : α} (h : l[i]? = some x) :
    ∃ A B, l = A ++ x :: B ∧ A.length = i := by
  obtain ⟨hi, rfl⟩ := List.getElem?_eq_some_iff.mp h
  refine ⟨l.take i, l.drop (i + 1), ?_, List.length_take_of_le (Nat.le_of_lt hi)⟩
  rw [List.getElem_cons_drop, List.take_append_drop]

namespace MatchConductorManager

/-- The game made but not yet in the vector. -/
def pending (m : MatchConductorManager) : Option GameId :=
  match m.create with
  | .start g => some g
  | .lockRegister g => some g
  | .register g => some g
  | _ => none

/-- The games that have been put into the vector. -/
def Registered (m : MatchConductorManager) (g : GameId) : Prop := g < m.made ∧ m.pending ≠ some g

/-- The games whose conductors the vector owns. -/
def owned (m : MatchConductorManager) : List GameId := m.matchConductors.filterMap Slot.conductor

/-- A slot behind the place that the next kept pair moves to: a finished game,
or a pair moved from. -/
def Condemned (m : MatchConductorManager) (s : Slot) : Prop :=
  s = vacated ∨ ∃ g, s = full g ∧ (m.conductors g).stop = true

/-- What the vector looks like at each place of the clean-up, and outside it. -/
def Layout (m : MatchConductorManager) : Prop :=
  match m.create with
  | .cleanUp _ (.scan r i) =>
    ∃ kept gap rest, m.matchConductors = pairs kept ++ (gap ++ pairs rest) ∧
      (∀ s ∈ gap, m.Condemned s) ∧ (kept ++ rest).Pairwise (· < ·) ∧
      r = kept.length ∧ i = kept.length + gap.length ∧ gap ≠ []
  | .cleanUp _ (.moveConductor r i) =>
    ∃ kept old gap g rest, m.matchConductors = pairs kept ++ old :: (gap ++ full g :: pairs rest) ∧
      (∀ s ∈ old :: gap, m.Condemned s) ∧ (kept ++ g :: rest).Pairwise (· < ·) ∧
      r = kept.length ∧ i = kept.length + 1 + gap.length
  | .cleanUp _ (.moveThread r i) =>
    ∃ kept t gap g rest,
      m.matchConductors = pairs kept ++ ⟨some g, t⟩ :: (gap ++ ⟨none, some g⟩ :: pairs rest) ∧
      (∀ s ∈ gap, m.Condemned s) ∧ (kept ++ g :: rest).Pairwise (· < ·) ∧
      r = kept.length ∧ i = kept.length + 1 + gap.length
  | .cleanUp _ (.joinTail r j) =>
    ∃ kept gone gap, m.matchConductors = pairs kept ++ (gone ++ gap) ∧
      (∀ s ∈ gone, s = vacated) ∧ (∀ s ∈ gap, m.Condemned s) ∧ kept.Pairwise (· < ·) ∧
      r = kept.length ∧ j = kept.length + gone.length
  | .cleanUp _ (.deleteTail r j) =>
    ∃ kept gone old gap, m.matchConductors = pairs kept ++ (gone ++ old :: gap) ∧
      (∀ s ∈ gone, s = vacated) ∧ (∀ s ∈ old :: gap, m.Condemned s) ∧ kept.Pairwise (· < ·) ∧
      (∀ g, old = full g → (m.conductors g).pc = .returned) ∧
      r = kept.length ∧ j = kept.length + gone.length
  | _ => ∃ kept, m.matchConductors = pairs kept ∧ kept.Pairwise (· < ·)

/-- What holds of the manager at every time. -/
structure Inv (m : MatchConductorManager) : Prop where
  layout : m.Layout
  nodup : m.owned.Nodup
  owned : ∀ g, g ∈ m.owned ↔ m.Registered g ∧ (m.conductors g).destroyed = false
  pending : ∀ g, m.pending = some g → g + 1 = m.made ∧ (m.conductors g).destroyed = false
  starting : ∀ g, m.create = .start g → (m.conductors g).pc = .unstarted
  unmade : ∀ g, m.made ≤ g → m.conductors g = unmade
  finished : ∀ g, (m.conductors g).destroyed = true → (m.conductors g).hasFinished = true

theorem Inv.initial : initial.Inv where
  layout := ⟨[], rfl, .nil⟩
  nodup := .nil
  owned g := by simp [MatchConductorManager.owned, MatchConductorManager.initial, Registered]
  pending g := by simp [MatchConductorManager.pending, MatchConductorManager.initial]
  starting g := by simp [MatchConductorManager.initial]
  unmade _ _ := rfl
  finished g := by simp [MatchConductorManager.initial, MatchConductorManager.unmade]

/-! ## Steps that leave the vector alone -/

/-- What a conductor may do while others hold it: it stops and returns, and
does not take either back. -/
structure Advances (c c' : MatchConductor) : Prop where
  destroyed : c'.destroyed = c.destroyed
  stop : c.stop = true → c'.stop = true
  unstarted : c.pc = .unstarted → c'.pc = .unstarted
  returned : c.pc = .returned → c'.pc = .returned

theorem Advances.refl (c : MatchConductor) : Advances c c := ⟨rfl, id, id, id⟩

theorem Advances.trans {c c' c'' : MatchConductor} (h : Advances c c') (h' : Advances c' c'') : Advances c c'' :=
  ⟨h'.destroyed.trans h.destroyed, h'.stop ∘ h.stop, h'.unstarted ∘ h.unstarted, h'.returned ∘ h.returned⟩

theorem Condemned.mono {m m' : MatchConductorManager} {s : Slot} (h : m.Condemned s)
    (hstop : ∀ g, (m.conductors g).stop = true → (m'.conductors g).stop = true) : m'.Condemned s := by
  rcases h with h | ⟨g, h, hs⟩
  · exact .inl h
  · exact .inr ⟨g, h, hstop g hs⟩

/-- The games go on; the vector and `CreateMatchConductor` stand still. -/
theorem Inv.advance {m m' : MatchConductorManager} (h : m.Inv) (hslots : m'.matchConductors = m.matchConductors)
    (hcreate : m'.create = m.create) (hmade : m'.made = m.made)
    (hadv : ∀ g, Advances (m.conductors g) (m'.conductors g))
    (hunmade : ∀ g, m.made ≤ g → m'.conductors g = m.conductors g) : m'.Inv := by
  have hcond : ∀ s, m.Condemned s → m'.Condemned s := fun s hs => hs.mono fun g => (hadv g).stop
  have hpending : m'.pending = m.pending := by unfold MatchConductorManager.pending; rw [hcreate]
  refine ⟨?_, ?_, fun g => ?_, fun g hg => ?_, fun g hg => ?_, fun g hg => ?_, fun g hg => ?_⟩
  · have hl := h.layout
    unfold Layout at hl ⊢
    rw [hcreate, hslots]
    split at hl
    · obtain ⟨kept, gap, rest, h1, h2, h3⟩ := hl
      exact ⟨kept, gap, rest, h1, fun s hs => hcond s (h2 s hs), h3⟩
    · obtain ⟨kept, old, gap, g, rest, h1, h2, h3⟩ := hl
      exact ⟨kept, old, gap, g, rest, h1, fun s hs => hcond s (h2 s hs), h3⟩
    · obtain ⟨kept, t, gap, g, rest, h1, h2, h3⟩ := hl
      exact ⟨kept, t, gap, g, rest, h1, fun s hs => hcond s (h2 s hs), h3⟩
    · obtain ⟨kept, gone, gap, h1, h2, h3, h4⟩ := hl
      exact ⟨kept, gone, gap, h1, h2, fun s hs => hcond s (h3 s hs), h4⟩
    · obtain ⟨kept, gone, s, gap, h1, h2, h3, h4, h5, h6⟩ := hl
      exact ⟨kept, gone, s, gap, h1, h2, fun s hs => hcond s (h3 s hs), h4,
        fun g hg => (hadv g).returned (h5 g hg), h6⟩
    · exact hl
  · rw [MatchConductorManager.owned, hslots]; exact h.nodup
  · rw [MatchConductorManager.owned, hslots, Registered, hmade, hpending, (hadv g).destroyed]
    exact h.owned g
  · rw [hmade, (hadv g).destroyed]; exact h.pending g (hpending ▸ hg)
  · exact (hadv g).unstarted (h.starting g (hcreate ▸ hg))
  · rw [hunmade g (hmade ▸ hg)]; exact h.unmade g (hmade ▸ hg)
  · exact (hadv g).stop (h.finished g ((hadv g).destroyed ▸ hg))

/-! ## Steps of `CreateMatchConductor` -/

/-- The vector is rearranged, and no conductor is touched. -/
theorem Inv.relocate {m m' : MatchConductorManager} (h : m.Inv) (hconductors : m'.conductors = m.conductors)
    (hmade : m'.made = m.made) (hpending : m'.pending = m.pending) (hstart : ∀ g, m'.create ≠ .start g)
    (howned : m'.owned = m.owned) (hlayout : m'.Layout) : m'.Inv where
  layout := hlayout
  nodup := howned ▸ h.nodup
  owned g := by rw [howned, Registered, hmade, hpending, hconductors]; exact h.owned g
  pending g hg := by rw [hmade, hconductors]; exact h.pending g (hpending ▸ hg)
  starting g hg := absurd hg (hstart g)
  unmade g hg := by rw [hconductors]; exact h.unmade g (hmade ▸ hg)
  finished g hg := by rw [hconductors] at hg ⊢; exact h.finished g hg

theorem delete_conductors (m : MatchConductorManager) (o : Option GameId) (g : GameId) :
    (m.delete o).conductors g = if o = some g then (m.conductors g).destroy else m.conductors g := by
  cases o with
  | none => simp [delete]
  | some g' =>
    by_cases hg : g = g'
    · simp [delete, setConductor, hg]
    · have hne : ¬ g' = g := fun h => hg h.symm
      simp [delete, setConductor, hg, hne]

theorem delete_advances (m : MatchConductorManager) (o : Option GameId) (g : GameId) :
    ((m.delete o).conductors g).stop = (m.conductors g).stop ∧
      ((m.delete o).conductors g).pc = (m.conductors g).pc := by
  rw [delete_conductors]
  split <;> simp [MatchConductor.destroy]

/-- A condemned slot gives up its conductor, which is deleted. -/
theorem Inv.delete {m m' : MatchConductorManager} {s : Slot} (h : m.Inv) (hs : m.Condemned s)
    (hconductors : m'.conductors = (m.delete s.conductor).conductors)
    (hmade : m'.made = m.made) (hpending : m'.pending = m.pending) (hstart : ∀ g, m'.create ≠ .start g)
    (hperm : m.owned.Perm (s.conductor.toList ++ m'.owned)) (hlayout : m'.Layout) : m'.Inv := by
  have hmem : ∀ g, g ∈ m.owned ↔ s.conductor = some g ∨ g ∈ m'.owned := by
    intro g
    rw [hperm.mem_iff, List.mem_append, Option.mem_toList]
  have hnodup := hperm.nodup_iff.mp h.nodup
  have hout : ∀ g, s.conductor = some g → g ∉ m'.owned := fun g hg =>
    fun hg' => (List.nodup_append.mp hnodup).2.2 g (by simp [hg]) g hg' rfl
  have hconductor : ∀ g, m'.conductors g = if s.conductor = some g then (m.conductors g).destroy
      else m.conductors g := fun g => by rw [hconductors, delete_conductors]
  refine ⟨hlayout, (List.nodup_append.mp hnodup).2.1, fun g => ?_, fun g hg => ?_,
    fun g hg => absurd hg (hstart g), fun g hg => ?_, fun g hg => ?_⟩
  · rw [Registered, hmade, hpending, hconductor]
    by_cases hg : s.conductor = some g
    · simp only [hg, if_true, MatchConductor.destroy, Bool.true_eq_false, and_false, iff_false]
      exact hout g hg
    · rw [if_neg hg, ← Registered, ← h.owned g, hmem]
      simp [hg]
  · have hne : s.conductor ≠ some g := by
      intro hc
      exact ((h.owned g).mp ((hmem g).mpr (.inl hc))).1.2 (hpending ▸ hg)
    rw [hmade, hconductor, if_neg hne]
    exact h.pending g (hpending ▸ hg)
  · have hne : s.conductor ≠ some g := by
      intro hc
      have hlt := ((h.owned g).mp ((hmem g).mpr (.inl hc))).1.1
      rw [hmade] at hg
      exact absurd hlt (Nat.not_lt.mpr hg)
    rw [hconductor, if_neg hne]
    exact h.unmade g (hmade ▸ hg)
  · rw [hconductor] at hg ⊢
    by_cases hc : s.conductor = some g
    · rw [if_pos hc]
      rcases hs with rfl | ⟨g', rfl, hstop⟩
      · simp [vacated] at hc
      · simp only [full, Option.some.injEq] at hc
        exact hc ▸ hstop
    · rw [if_neg hc] at hg ⊢
      exact h.finished g hg

theorem filterMap_pairs (gs : List GameId) : (pairs gs).filterMap Slot.conductor = gs := by
  induction gs with
  | nil => rfl
  | cons g gs ih => simpa [pairs, full] using ih

theorem length_pairs (gs : List GameId) : (pairs gs).length = gs.length := List.length_map _

theorem filterMap_vacated {gone : List Slot} (h : ∀ s ∈ gone, s = vacated) :
    gone.filterMap Slot.conductor = [] := by
  rw [List.filterMap_eq_nil_iff]
  intro s hs
  rw [h s hs]
  rfl

theorem removable_full (m : MatchConductorManager) (g : GameId) :
    m.removable (full g) = .ok (m.conductors g).stop := by
  simp [removable, full, MatchConductor.hasFinished]

/-- The players that `CreateMatchConductor` holds as its argument. -/
def argument (m : MatchConductorManager) : List (Option ConnId) :=
  match m.create with
  | .testFinish ps => ps
  | .lockCleanUp ps => ps
  | .cleanUp ps _ => ps
  | .unlockCleanUp ps => ps
  | .construct ps => ps
  | _ => []

/-- The clean-up is about to assign a conductor over that of `g`. -/
def Overwrites (m : MatchConductorManager) (g : GameId) : Prop :=
  ∃ ps r i old, m.create = .cleanUp ps (.moveConductor r i) ∧ m.matchConductors[r]? = some old ∧
    old.conductor = some g

/-- What a step of `CreateMatchConductor` can do to the games and to its own
argument. -/
inductive Created (m m' : MatchConductorManager) : Prop
  | moved (conductors : m'.conductors = m.conductors) (made : m'.made = m.made)
      (argument : m'.argument = m.argument)
  | refused (requested : m.finishRequested = true) (conductors : m'.conductors = m.conductors)
      (made : m'.made = m.made) (argument : m'.argument = [])
  | deleted (g : GameId) (finished : (m.conductors g).hasFinished = true)
      (waited : m.Overwrites g ∨ (m.conductors g).pc = .returned)
      (conductors : m'.conductors = (m.delete (some g)).conductors) (made : m'.made = m.made)
      (argument : m'.argument = m.argument)
  | made (c : MatchConductor) (construct : MatchConductor.construct m.argument = .ok c)
      (conductors : m'.conductors = Function.update m.conductors m.made c) (made : m'.made = m.made + 1)
      (argument : m'.argument = [])
  | started (g : GameId) (create : m.create = .start g)
      (conductors : m'.conductors = Function.update m.conductors g ((m.conductors g).goto .head))
      (made : m'.made = m.made) (argument : m'.argument = m.argument)

theorem Created.of_delete {m m' : MatchConductorManager} {old : Slot} (h : m.Condemned old)
    (hreturned : ∀ g, old.conductor = some g → m.Overwrites g ∨ (m.conductors g).pc = .returned)
    (hconductors : m'.conductors = (m.delete old.conductor).conductors) (hmade : m'.made = m.made)
    (hargument : m'.argument = m.argument) : Created m m' := by
  rcases h with rfl | ⟨g, rfl, hstop⟩
  · exact .moved hconductors hmade hargument
  · exact .deleted g hstop (hreturned g rfl) hconductors hmade hargument

theorem Inv.find {m m' : MatchConductorManager} {ps : List (Option ConnId)} {i : Nat} (h : m.Inv)
    (hcreate : m.create = .cleanUp ps (.find i)) (hstep : m.eraseStep ps (.find i) = some (.ok m')) :
    m'.Inv ∧ Created m m' := by
  have hl := h.layout
  simp only [Layout, hcreate] at hl
  obtain ⟨gs, hslots, hord⟩ := hl
  simp only [eraseStep] at hstep
  split at hstep
  next =>
    simp only [Option.some.injEq, Except.ok.injEq] at hstep
    subst hstep
    exact ⟨h.relocate rfl rfl (by simp [MatchConductorManager.pending, hcreate]) (by simp) rfl ⟨gs, hslots, hord⟩,
      .moved rfl rfl (by simp [argument, hcreate])⟩
  next slot hslot =>
    rw [hslots, pairs, List.getElem?_map, Option.map_eq_some_iff] at hslot
    obtain ⟨g, hg, rfl⟩ := hslot
    simp only [removable_full, bind, Except.bind, pure, Except.pure, Option.some.injEq, Except.ok.injEq] at hstep
    subst hstep
    refine ⟨h.relocate rfl rfl (by simp [MatchConductorManager.pending, hcreate]) (by simp) rfl ?_,
      .moved rfl rfl (by simp [argument, hcreate])⟩
    cases hstop : (m.conductors g).stop with
    | false => exact ⟨gs, hslots, hord⟩
    | true =>
      obtain ⟨kept, rest, rfl, hi⟩ := split_of_getElem? hg
      refine ⟨kept, [full g], rest, by simp [hslots, pairs], ?_, hord.sublist (by simp), hi.symm, by simp [hi],
        by simp⟩
      simp only [List.mem_singleton, forall_eq]
      exact .inr ⟨g, rfl, hstop⟩

theorem Inv.scan {m m' : MatchConductorManager} {ps : List (Option ConnId)} {r i : Nat} (h : m.Inv)
    (hcreate : m.create = .cleanUp ps (.scan r i)) (hstep : m.eraseStep ps (.scan r i) = some (.ok m')) :
    m'.Inv ∧ Created m m' := by
  have hl := h.layout
  simp only [Layout, hcreate] at hl
  obtain ⟨kept, gap, rest, hslots, hgap, hord, hr, hi, hne⟩ := hl
  have hpast : (pairs kept).length + gap.length = i := by rw [length_pairs, hi]
  simp only [eraseStep] at hstep
  obtain _ | ⟨g, rest⟩ := rest
  · -- the scan is over; the gap is the tail to destroy
    have hnone : m.matchConductors[i]? = none := by
      rw [hslots, ← hpast]
      simp [pairs]
    simp only [hnone, Option.some.injEq, Except.ok.injEq] at hstep
    subst hstep
    exact ⟨h.relocate rfl rfl (by simp [MatchConductorManager.pending, hcreate]) (by simp) rfl
      ⟨kept, [], gap, by simp [hslots, pairs], by simp, hgap, by simpa using hord, hr, by simpa using hr⟩,
      .moved rfl rfl (by simp [argument, hcreate])⟩
  · have hslot : m.matchConductors[i]? = some (full g) := by
      rw [hslots, ← hpast, ← List.length_append, ← List.append_assoc]
      exact getElem?_mid _ _ _
    simp only [hslot, removable_full, bind, Except.bind, pure, Except.pure, Option.some.injEq,
      Except.ok.injEq] at hstep
    subst hstep
    refine ⟨h.relocate rfl rfl (by simp [MatchConductorManager.pending, hcreate]) (by simp) rfl ?_,
      .moved rfl rfl (by simp [argument, hcreate])⟩
    cases hstop : (m.conductors g).stop with
    | true =>
      refine ⟨kept, gap ++ [full g], rest, by simp [hslots, pairs], ?_, hord.sublist (by simp), hr,
        by simp [hi, Nat.add_assoc], by simp⟩
      intro s hs
      rcases List.mem_append.mp hs with hs | hs
      · exact hgap s hs
      · exact .inr ⟨g, List.mem_singleton.mp hs, hstop⟩
    | false =>
      obtain _ | ⟨old, gap⟩ := gap
      · exact absurd rfl hne
      · exact ⟨kept, old, gap, g, rest, by simp [hslots, pairs], hgap, hord, hr, by simp [hi]; omega⟩

/-- Two slots of the vector are written, one before the other. -/
theorem set_two (A B C : List Slot) (x y x' y' : Slot) :
    ((A ++ x :: (B ++ y :: C)).set A.length x').set (A.length + 1 + B.length) y' =
      A ++ x' :: (B ++ y' :: C) := by
  rw [set_mid]
  have hlen : A.length + 1 + B.length = (A ++ x' :: B).length := by simp; omega
  have hassoc : A ++ x' :: (B ++ y :: C) = (A ++ x' :: B) ++ y :: C := by simp
  rw [hlen, hassoc, set_mid]
  simp

theorem getElem?_two (A B C : List Slot) (x y : Slot) :
    (A ++ x :: (B ++ y :: C))[A.length + 1 + B.length]? = some y := by
  have hlen : A.length + 1 + B.length = (A ++ x :: B).length := by simp; omega
  have hassoc : A ++ x :: (B ++ y :: C) = (A ++ x :: B) ++ y :: C := by simp
  rw [hlen, hassoc, getElem?_mid]

/-- What the first half of a move does: the conductor in the target is
deleted, and the source's takes its place. -/
theorem Inv.moveConductor {m m' : MatchConductorManager} {ps : List (Option ConnId)} {r i : Nat} (h : m.Inv)
    (hcreate : m.create = .cleanUp ps (.moveConductor r i))
    (hstep : m.eraseStep ps (.moveConductor r i) = some (.ok m')) :
    m'.Inv ∧ Created m m' := by
  have hl := h.layout
  simp only [Layout, hcreate] at hl
  obtain ⟨kept, old, gap, g, rest, hslots, hgap, hord, hr, hi⟩ := hl
  rw [← length_pairs kept] at hr hi
  have htarget : m.matchConductors[r]? = some old := by rw [hslots, hr, getElem?_mid]
  have hsource : m.matchConductors[i]? = some (full g) := by rw [hslots, hi, getElem?_two]
  simp only [eraseStep, htarget, hsource, Option.some.injEq, Except.ok.injEq] at hstep
  have hslots' : m'.matchConductors =
      pairs kept ++ ⟨some g, old.thread⟩ :: (gap ++ ⟨none, some g⟩ :: pairs rest) := by
    have hdelete : (m.delete old.conductor).matchConductors = m.matchConductors := by
      cases old.conductor <;> rfl
    rw [← hstep]
    simp only [setSlot, hdelete, full]
    rw [hslots, hr, hi, set_two]
  have hconductors : m'.conductors = (m.delete old.conductor).conductors := by rw [← hstep]; rfl
  have hmade : m'.made = m.made := by rw [← hstep]; cases old.conductor <;> rfl
  have hcreate' : m'.create = .cleanUp ps (.moveThread r i) := by rw [← hstep]
  refine ⟨h.delete (hgap old List.mem_cons_self) hconductors hmade
    (by simp [MatchConductorManager.pending, hcreate, hcreate']) (by simp [hcreate']) ?_ ?_,
    .of_delete (hgap old List.mem_cons_self)
      (fun g hg => .inl ⟨ps, r, i, old, hcreate, htarget, hg⟩) hconductors hmade
      (by simp [argument, hcreate, hcreate'])⟩
  · simp only [MatchConductorManager.owned, hslots, hslots', List.filterMap_append, filterMap_pairs]
    cases hold : old.conductor with
    | none =>
      simp only [hold, full, filterMap_pairs, List.filterMap_cons, List.filterMap_append, Option.toList_none,
        List.nil_append]
      exact List.perm_middle.append_left _
    | some g' =>
      simp only [hold, full, filterMap_pairs, List.filterMap_cons, List.filterMap_append, Option.toList_some,
        List.cons_append, List.nil_append]
      exact List.perm_middle.trans ((List.perm_middle.append_left _).cons _)
  · simp only [Layout, hcreate']
    refine ⟨kept, old.thread, gap, g, rest, hslots', fun s hs => ?_, hord, by rw [hr, length_pairs],
      by rw [hi, length_pairs]⟩
    refine (hgap s (List.mem_cons_of_mem _ hs)).mono fun g hg => ?_
    rw [hconductors, (delete_advances m _ g).1]
    exact hg

theorem Inv.moveThread {m m' : MatchConductorManager} {ps : List (Option ConnId)} {r i : Nat} (h : m.Inv)
    (hcreate : m.create = .cleanUp ps (.moveThread r i))
    (hstep : m.eraseStep ps (.moveThread r i) = some (.ok m')) : m'.Inv ∧ Created m m' := by
  have hl := h.layout
  simp only [Layout, hcreate] at hl
  obtain ⟨kept, t, gap, g, rest, hslots, hgap, hord, hr, hi⟩ := hl
  rw [← length_pairs kept] at hr hi
  have htarget : m.matchConductors[r]? = some ⟨some g, t⟩ := by rw [hslots, hr, getElem?_mid]
  have hsource : m.matchConductors[i]? = some ⟨none, some g⟩ := by rw [hslots, hi, getElem?_two]
  simp only [eraseStep, htarget, hsource] at hstep
  split at hstep
  next =>
    simp only [Option.some.injEq, Except.ok.injEq] at hstep
    subst hstep
    have hslots' : (m.matchConductors.set r ⟨some g, some g⟩).set i ⟨none, none⟩ =
        pairs kept ++ full g :: (gap ++ vacated :: pairs rest) := by
      rw [hslots, hr, hi, set_two]
      rfl
    refine ⟨h.relocate rfl rfl (by simp [MatchConductorManager.pending, hcreate]) (by simp) ?_ ?_,
      .moved rfl rfl (by simp [argument, hcreate])⟩
    · simp only [MatchConductorManager.owned, setSlot]
      rw [hslots', hslots]
      simp only [List.filterMap_append, List.filterMap_cons, full, vacated]
    · refine ⟨kept ++ [g], gap ++ [vacated], rest, ?_, ?_, by simpa using hord, by simp [hr, length_pairs],
        by simp [hi, length_pairs]; omega, by simp⟩
      · simp only [setSlot, hslots']
        simp [pairs]
      · intro s hs
        rcases List.mem_append.mp hs with hs | hs
        · exact hgap s hs
        · exact .inl (List.mem_singleton.mp hs)
  next => exact absurd hstep (by simp)

theorem Inv.joinTail {m m' : MatchConductorManager} {ps : List (Option ConnId)} {r j : Nat} (h : m.Inv)
    (hcreate : m.create = .cleanUp ps (.joinTail r j))
    (hstep : m.eraseStep ps (.joinTail r j) = some (.ok m')) : m'.Inv ∧ Created m m' := by
  have hl := h.layout
  simp only [Layout, hcreate] at hl
  obtain ⟨kept, gone, gap, hslots, hgone, hgap, hord, hr, hj⟩ := hl
  have hsplit : m.matchConductors = (pairs kept ++ gone) ++ gap := by rw [hslots, List.append_assoc]
  have hpast : (pairs kept ++ gone).length = j := by rw [List.length_append, length_pairs, hj]
  simp only [eraseStep] at hstep
  obtain _ | ⟨s, gap⟩ := gap
  · have hnone : m.matchConductors[j]? = none := by
      rw [hsplit, List.append_nil, ← hpast]
      simp
    simp only [hnone, Option.some.injEq, Except.ok.injEq] at hstep
    subst hstep
    have htake : m.matchConductors.take r = pairs kept := by
      rw [hslots, hr, ← length_pairs kept, List.take_left]
    refine ⟨h.relocate rfl rfl (by simp [MatchConductorManager.pending, hcreate]) (by simp) ?_
      ⟨kept, htake, hord⟩, .moved rfl rfl (by simp [argument, hcreate])⟩
    simp only [MatchConductorManager.owned]
    rw [htake, hslots]
    simp only [List.filterMap_append, filterMap_pairs, filterMap_vacated hgone, List.append_nil]
  · have hslot : m.matchConductors[j]? = some s := by rw [hsplit, ← hpast, getElem?_mid]
    simp only [hslot] at hstep
    split at hstep
    next hjoined =>
      simp only [Option.some.injEq, Except.ok.injEq] at hstep
      subst hstep
      refine ⟨h.relocate rfl rfl (by simp [MatchConductorManager.pending, hcreate]) (by simp) rfl
        ⟨kept, gone, s, gap, hslots, hgone, hgap, hord, ?_, hr, hj⟩, .moved rfl rfl (by simp [argument, hcreate])⟩
      rintro g rfl
      simpa [joined, full] using hjoined
    next => exact absurd hstep (by simp)

/-- A pair of the tail is destroyed: its thread has been joined, and its
conductor is deleted. -/
theorem Inv.deleteTail {m m' : MatchConductorManager} {ps : List (Option ConnId)} {r j : Nat} (h : m.Inv)
    (hcreate : m.create = .cleanUp ps (.deleteTail r j))
    (hstep : m.eraseStep ps (.deleteTail r j) = some (.ok m')) :
    m'.Inv ∧ Created m m' := by
  have hl := h.layout
  simp only [Layout, hcreate] at hl
  obtain ⟨kept, gone, s, gap, hslots, hgone, hgap, hord, hreturned, hr, hj⟩ := hl
  have hsplit : m.matchConductors = (pairs kept ++ gone) ++ s :: gap := by rw [hslots, List.append_assoc]
  have hpast : (pairs kept ++ gone).length = j := by rw [List.length_append, length_pairs, hj]
  have hslot : m.matchConductors[j]? = some s := by rw [hsplit, ← hpast, getElem?_mid]
  simp only [eraseStep, hslot, Option.some.injEq, Except.ok.injEq] at hstep
  have hdelete : (m.delete s.conductor).matchConductors = m.matchConductors := by cases s.conductor <;> rfl
  have hslots' : m'.matchConductors = pairs kept ++ (gone ++ vacated :: gap) := by
    rw [← hstep]
    simp only [setSlot, hdelete]
    rw [hsplit, ← hpast, set_mid, List.append_assoc]
    rfl
  have hconductors : m'.conductors = (m.delete s.conductor).conductors := by rw [← hstep]; rfl
  have hmade : m'.made = m.made := by rw [← hstep]; cases s.conductor <;> rfl
  have hcreate' : m'.create = .cleanUp ps (.joinTail r (j + 1)) := by rw [← hstep]
  refine ⟨h.delete (hgap s List.mem_cons_self) hconductors hmade
    (by simp [MatchConductorManager.pending, hcreate, hcreate']) (by simp [hcreate']) ?_ ?_,
    .of_delete (hgap s List.mem_cons_self) (fun g hg => .inr ?_)
      hconductors hmade (by simp [argument, hcreate, hcreate'])⟩
  · simp only [MatchConductorManager.owned, hslots, hslots', List.filterMap_append, filterMap_pairs,
      filterMap_vacated hgone, List.filterMap_cons, vacated, List.nil_append]
    cases hs : s.conductor with
    | none => simp
    | some g => exact List.perm_middle
  · simp only [Layout, hcreate']
    refine ⟨kept, gone ++ [vacated], gap, by simp [hslots'], ?_, fun s' hs' => ?_, hord, hr,
      by simp [hj, Nat.add_assoc]⟩
    · intro s' hs'
      rcases List.mem_append.mp hs' with hs' | hs'
      · exact hgone s' hs'
      · exact List.mem_singleton.mp hs'
    · refine (hgap s' (List.mem_cons_of_mem _ hs')).mono fun g hg => ?_
      rw [hconductors, (delete_advances m _ g).1]
      exact hg
  · rcases hgap s List.mem_cons_self with rfl | ⟨g', rfl, -⟩
    · simp [vacated] at hg
    · simp only [full, Option.some.injEq] at hg
      exact hg ▸ hreturned g' rfl

theorem eraseStep_spec {m m' : MatchConductorManager} {ps : List (Option ConnId)} {e : ErasePc} (h : m.Inv)
    (hcreate : m.create = .cleanUp ps e) (hstep : m.eraseStep ps e = some (.ok m')) :
    m'.Inv ∧ Created m m' := by
  cases e with
  | find i => exact h.find hcreate hstep
  | scan r i => exact h.scan hcreate hstep
  | moveConductor r i => exact h.moveConductor hcreate hstep
  | moveThread r i => exact h.moveThread hcreate hstep
  | joinTail r j => exact h.joinTail hcreate hstep
  | deleteTail r j => exact h.deleteTail hcreate hstep

/-- Outside the clean-up the vector is whole, so a step there that leaves it
alone keeps the invariant. -/
theorem Inv.whole {m : MatchConductorManager} (h : m.Inv) (hcreate : ∀ ps e, m.create ≠ .cleanUp ps e) :
    ∃ kept, m.matchConductors = pairs kept ∧ kept.Pairwise (· < ·) := by
  have hl := h.layout
  unfold Layout at hl
  split at hl
  · next hc => exact absurd hc (hcreate _ _)
  · next hc => exact absurd hc (hcreate _ _)
  · next hc => exact absurd hc (hcreate _ _)
  · next hc => exact absurd hc (hcreate _ _)
  · next hc => exact absurd hc (hcreate _ _)
  · exact hl

theorem construct_ok {ps : List (Option ConnId)} {c : MatchConductor}
    (h : MatchConductor.construct ps = .ok c) :
    (∀ p ∈ ps, p.isSome = true) ∧
      c = ⟨ps, false, .normal, .unstarted, false, []⟩ := by
  unfold MatchConductor.construct at h
  split at h
  next hall =>
    simp only [Except.ok.injEq] at h
    exact ⟨fun p hp => List.all_eq_true.mp hall p hp, h.symm⟩
  next => exact absurd h (by simp)

theorem Inv.made {m m' : MatchConductorManager} {ps : List (Option ConnId)} {c : MatchConductor} (h : m.Inv)
    (hcreate : m.create = .construct ps) (hc : MatchConductor.construct ps = .ok c)
    (hslots : m'.matchConductors = m.matchConductors)
    (hconductors : m'.conductors = Function.update m.conductors m.made c) (hmade : m'.made = m.made + 1)
    (hcreate' : m'.create = .start m.made) : m'.Inv := by
  obtain ⟨-, rfl⟩ := construct_ok hc
  obtain ⟨kept, hkept, hord⟩ := h.whole (by simp [hcreate])
  have hpending : m.pending = none := by simp [MatchConductorManager.pending, hcreate]
  have hpending' : m'.pending = some m.made := by simp [MatchConductorManager.pending, hcreate']
  have howned : m'.owned = m.owned := by rw [MatchConductorManager.owned, hslots]; rfl
  have hother : ∀ g, g ≠ m.made → m'.conductors g = m.conductors g := fun g hg => by
    rw [hconductors, Function.update_of_ne hg]
  have hself : m'.conductors m.made = ⟨ps, false, .normal, .unstarted, false, []⟩ := by
    rw [hconductors, Function.update_self]
  refine ⟨?_, howned ▸ h.nodup, fun g => ?_, fun g hg => ?_, fun g hg => ?_, fun g hg => ?_, fun g hg => ?_⟩
  · simp only [Layout, hcreate']
    exact ⟨kept, hslots.trans hkept, hord⟩
  · rw [howned, h.owned g, Registered, Registered, hpending, hpending', hmade]
    by_cases hg : g = m.made
    · simp [hg]
    · have hlt : g < m.made + 1 ↔ g < m.made := by rw [Nat.lt_succ_iff_lt_or_eq, or_iff_left hg]
      rw [hother g hg, hlt]
      simp [Ne.symm hg]
  · simp only [hpending', Option.some.injEq] at hg
    subst hg
    exact ⟨hmade.symm, by rw [hself]⟩
  · simp only [hcreate', CreatePc.start.injEq] at hg
    rw [← hg, hself]
  · rw [hmade] at hg
    rw [hother g (by omega)]
    exact h.unmade g (by omega)
  · by_cases hgm : g = m.made
    · subst hgm
      simp [hself] at hg
    · rw [hother g hgm] at hg ⊢
      exact h.finished g hg

theorem Inv.started {m m' : MatchConductorManager} {g : GameId} (h : m.Inv) (hcreate : m.create = .start g)
    (hslots : m'.matchConductors = m.matchConductors)
    (hconductors : m'.conductors = Function.update m.conductors g ((m.conductors g).goto .head))
    (hmade : m'.made = m.made) (hcreate' : m'.create = .lockRegister g) : m'.Inv := by
  obtain ⟨kept, hkept, hord⟩ := h.whole (by simp [hcreate])
  have hpending : m'.pending = m.pending := by simp [MatchConductorManager.pending, hcreate, hcreate']
  have howned : m'.owned = m.owned := by rw [MatchConductorManager.owned, hslots]; rfl
  have hlast := (h.pending g (by simp [MatchConductorManager.pending, hcreate])).1
  have hkeeps : ∀ g', (m'.conductors g').destroyed = (m.conductors g').destroyed ∧
      (m'.conductors g').hasFinished = (m.conductors g').hasFinished := by
    intro g'
    rw [hconductors]
    by_cases hg : g' = g
    · subst hg
      rw [Function.update_self]
      exact ⟨rfl, rfl⟩
    · rw [Function.update_of_ne hg]
      exact ⟨rfl, rfl⟩
  refine ⟨?_, howned ▸ h.nodup, fun g => ?_, fun g hg => ?_, fun g hg => ?_, fun g' hg => ?_, fun g hg => ?_⟩
  · simp only [Layout, hcreate']
    exact ⟨kept, hslots.trans hkept, hord⟩
  · rw [howned, h.owned g, Registered, Registered, hpending, hmade, (hkeeps g).1]
  · rw [hmade, (hkeeps g).1]
    exact h.pending g (hpending ▸ hg)
  · simp [hcreate'] at hg
  · rw [hmade, ← hlast] at hg
    rw [hconductors, Function.update_of_ne (Nat.ne_of_gt hg)]
    exact h.unmade g' (hlast ▸ hg)
  · rw [(hkeeps g).1] at hg
    rw [(hkeeps g).2]
    exact h.finished g hg

theorem Inv.register {m m' : MatchConductorManager} {g : GameId} (h : m.Inv) (hcreate : m.create = .register g)
    (hslots : m'.matchConductors = m.matchConductors ++ [full g]) (hconductors : m'.conductors = m.conductors)
    (hmade : m'.made = m.made) (hcreate' : m'.create = .idle) : m'.Inv := by
  obtain ⟨kept, hkept, hord⟩ := h.whole (by simp [hcreate])
  have hpending : m.pending = some g := by simp [MatchConductorManager.pending, hcreate]
  have hpending' : m'.pending = none := by simp [MatchConductorManager.pending, hcreate']
  obtain ⟨hlast, halive⟩ := h.pending g hpending
  have howned : m'.owned = m.owned ++ [g] := by
    rw [MatchConductorManager.owned, hslots, List.filterMap_append]
    rfl
  have hkept' : m.owned = kept := by rw [MatchConductorManager.owned, hkept, filterMap_pairs]
  have hlt : ∀ g' ∈ m.owned, g' < g := by
    intro g' hg'
    obtain ⟨hlt, hne⟩ := ((h.owned g').mp hg').1
    rw [hpending] at hne
    rw [← hlast] at hlt
    exact Nat.lt_of_le_of_ne (Nat.le_of_lt_succ hlt) fun he => hne (he ▸ rfl)
  refine ⟨?_, ?_, fun g' => ?_, fun g hg => ?_, fun g hg => ?_, fun g' hg => ?_, fun g hg => ?_⟩
  · simp only [Layout, hcreate']
    refine ⟨kept ++ [g], by rw [hslots, hkept]; simp [pairs], ?_⟩
    rw [List.pairwise_append]
    exact ⟨hord, List.pairwise_singleton _ _, fun a ha b hb => List.mem_singleton.mp hb ▸ hlt a (hkept' ▸ ha)⟩
  · rw [howned, List.nodup_append]
    exact ⟨h.nodup, List.nodup_singleton g,
      fun a ha b hb => Nat.ne_of_lt (List.mem_singleton.mp hb ▸ hlt a ha)⟩
  · rw [howned, List.mem_append, h.owned g', Registered, Registered, hpending, hpending', hmade, hconductors,
      List.mem_singleton]
    by_cases hg : g' = g
    · subst hg
      simp [halive, ← hlast]
    · simp [hg, Ne.symm hg]
  · simp [hpending'] at hg
  · simp [hcreate'] at hg
  · rw [hconductors]
    exact h.unmade g' (hmade ▸ hg)
  · rw [hconductors] at hg ⊢
    exact h.finished g hg

/-- **Every step of `CreateMatchConductor` keeps the invariant.** -/
theorem createStep_spec {m m' : MatchConductorManager} (h : m.Inv) (hstep : m.createStep = some (.ok m')) :
    m'.Inv ∧ Created m m' := by
  cases createStep_cases hstep with
  | refuse ps hcreate hf =>
    exact ⟨h.relocate rfl rfl (by simp [MatchConductorManager.pending, hcreate]) (by simp) rfl
      (h.whole (by simp [hcreate])), .refused hf rfl rfl rfl⟩
  | accept ps hcreate =>
    exact ⟨h.relocate rfl rfl (by simp [MatchConductorManager.pending, hcreate]) (by simp) rfl
      (h.whole (by simp [hcreate])), .moved rfl rfl (by simp [argument, hcreate])⟩
  | lockCleanUp ps hcreate =>
    exact ⟨h.relocate rfl rfl (by simp [MatchConductorManager.pending, hcreate]) (by simp) rfl
      (h.whole (by simp [hcreate])), .moved rfl rfl (by simp [argument, hcreate])⟩
  | cleanUp ps e _ hcreate herase => exact eraseStep_spec h hcreate herase
  | unlockCleanUp ps hcreate =>
    exact ⟨h.relocate rfl rfl (by simp [MatchConductorManager.pending, hcreate]) (by simp) rfl
      (h.whole (by simp [hcreate])), .moved rfl rfl (by simp [argument, hcreate])⟩
  | construct ps c hcreate hc =>
    exact ⟨h.made hcreate hc rfl rfl rfl rfl, .made c (by rw [argument, hcreate]; exact hc) rfl rfl rfl⟩
  | start g hcreate =>
    exact ⟨h.started hcreate rfl rfl rfl rfl, .started g hcreate rfl rfl (by simp [argument, hcreate])⟩
  | lockRegister g hcreate =>
    exact ⟨h.relocate rfl rfl (by simp [MatchConductorManager.pending, hcreate]) (by simp) rfl
      (h.whole (by simp [hcreate])), .moved rfl rfl (by simp [argument, hcreate])⟩
  | register g hcreate =>
    exact ⟨h.register hcreate rfl rfl rfl rfl, .moved rfl rfl (by simp [argument, hcreate])⟩

theorem eraseStep_finishRequested {m m' : MatchConductorManager} {ps : List (Option ConnId)} {e : ErasePc}
    (hstep : m.eraseStep ps e = some (.ok m')) : m'.finishRequested = m.finishRequested := by
  have hdelete : ∀ o, (m.delete o).finishRequested = m.finishRequested := fun o => by cases o <;> rfl
  cases eraseStep_cases hstep with
  | moveConductor r i target => exact hdelete target.conductor
  | deleteTail r j slot => exact hdelete slot.conductor
  | _ => rfl

theorem createStep_finishRequested {m m' : MatchConductorManager} (hstep : m.createStep = some (.ok m')) :
    m'.finishRequested = m.finishRequested := by
  cases createStep_cases hstep with
  | cleanUp ps e _ _ herase => exact eraseStep_finishRequested herase
  | _ => rfl

/-! ## Faults

None of the manager's or the games' own faults is an abort. -/

theorem removable_error {m : MatchConductorManager} {slot : Slot} {f : Fault}
    (h : m.removable slot = .error f) : f ≠ .abort := by
  unfold removable at h
  grind

theorem createStep_error {m : MatchConductorManager} {f : Fault} (h : m.createStep = some (.error f)) :
    f ≠ .abort := by
  have hremovable := @removable_error m
  cases hcreate : m.create with
  | cleanUp ps e =>
    cases e <;> simp only [createStep, hcreate, eraseStep, bind, Except.bind, pure, Except.pure] at h <;> grind
  | _ =>
    simp only [createStep, hcreate, acquire, bind, Option.bind, Except.bind, pure, Except.pure,
      MatchConductor.construct] at h
    grind

theorem endStep_error {m : MatchConductorManager} {f : Fault} (h : m.endStep = some (.error f)) :
    f ≠ .abort := by
  unfold endStep at h
  simp only [acquire, bind, Option.bind, pure] at h
  grind

theorem gameStep_error {closed alive : ConnId → Bool} {m : MatchConductorManager} {g : GameId} {f : Fault}
    (h : m.gameStep closed alive g = some (.error f)) : f ≠ .abort := by
  have hfault := @MatchConductor.step_fault closed alive (m.conductors g)
  unfold gameStep at h
  simp only [bind, Option.bind, pure] at h
  grind

/-! ## Every step -/

/-- What is said of every game is said of the one that changed and of the
others. -/
theorem forall_setConductor {m : MatchConductorManager} {g : GameId} {c : MatchConductor}
    (p : GameId → MatchConductor → Prop) (hself : p g c) (hother : ∀ g', p g' (m.conductors g')) :
    ∀ g', p g' ((m.setConductor g c).conductors g') :=
  (Function.forall_update_iff m.conductors p).mpr ⟨hself, fun g' _ => hother g'⟩

theorem setConductor_advances {m : MatchConductorManager} {g : GameId} {c : MatchConductor}
    (hadv : Advances (m.conductors g) c) (g' : GameId) :
    Advances (m.conductors g') ((m.setConductor g c).conductors g') :=
  forall_setConductor (fun g' c' => Advances (m.conductors g') c') hadv (fun _ => .refl _) g'

theorem Inv.setConductor {m : MatchConductorManager} {g : GameId} {c : MatchConductor} (h : m.Inv)
    (hadv : Advances (m.conductors g) c) (hmade : g < m.made) : (m.setConductor g c).Inv := by
  refine h.advance rfl rfl rfl (setConductor_advances hadv) fun g' hg' => ?_
  have hne : g' ≠ g := fun he => absurd hmade (Nat.not_lt.mpr (he ▸ hg'))
  simp [MatchConductorManager.setConductor, hne]

/-- A step of a game's thread. -/
theorem Inv.conductorStep {closed alive : ConnId → Bool} {m : MatchConductorManager} {g : GameId}
    {c : MatchConductor} {e : MatchConductor.Effect} (h : m.Inv)
    (hc : (m.conductors g).step closed alive = some (c, e)) :
    (m.setConductor g c).Inv ∧ ∀ g', Advances (m.conductors g') ((m.setConductor g c).conductors g') := by
  obtain ⟨hdestroyed, hstop, hunstarted, hreturned⟩ := MatchConductor.step_keeps hc
  have hadv : Advances (m.conductors g) c :=
    ⟨hdestroyed, hstop, fun hpc => absurd hpc hunstarted, fun hpc => absurd hpc hreturned⟩
  have hmade : g < m.made := by
    by_contra hge
    rw [h.unmade g (Nat.not_lt.mp hge)] at hunstarted
    exact hunstarted rfl
  exact ⟨h.setConductor hadv hmade, setConductor_advances hadv⟩

/-- What a step of `End` leaves alone, and what it does to a conductor. -/
theorem endStep_ok {m m' : MatchConductorManager} (hstep : m.endStep = some (.ok m')) :
    m'.matchConductors = m.matchConductors ∧ m'.create = m.create ∧ m'.made = m.made ∧
      (m'.conductors = m.conductors ∨
        ∃ g ∈ m.owned, m'.conductors = Function.update m.conductors g (m.conductors g).forceFinish) := by
  cases endStep_cases hstep with
  | setFlag => exact ⟨rfl, rfl, rfl, .inl rfl⟩
  | lock => exact ⟨rfl, rfl, rfl, .inl rfl⟩
  | forced => exact ⟨rfl, rfl, rfl, .inl rfl⟩
  | force i slot g _ hslot hg =>
    exact ⟨rfl, rfl, rfl, .inr ⟨g, List.mem_filterMap.mpr ⟨slot, List.mem_of_getElem? hslot, hg⟩, rfl⟩⟩
  | unlock => exact ⟨rfl, rfl, rfl, .inl rfl⟩

theorem endStep_advances {m m' : MatchConductorManager} (hstep : m.endStep = some (.ok m')) (g : GameId) :
    Advances (m.conductors g) (m'.conductors g) := by
  obtain ⟨-, -, -, hc | ⟨g', -, hc⟩⟩ := endStep_ok hstep
  · rw [hc]
    exact .refl _
  · rw [hc]
    have hforced : Advances (m.conductors g') (m.conductors g').forceFinish := ⟨rfl, fun _ => rfl, id, id⟩
    exact setConductor_advances hforced g

theorem Inv.finish {m m' : MatchConductorManager} (h : m.Inv) (hstep : m.endStep = some (.ok m')) : m'.Inv := by
  obtain ⟨hslots, hcreate, hmade, hconductors⟩ := endStep_ok hstep
  refine h.advance hslots hcreate hmade (endStep_advances hstep) fun g hg => ?_
  rcases hconductors with hc | ⟨g', hg', hc⟩
  · rw [hc]
  · have hlt := ((h.owned g').mp hg').1.1
    rw [hc, Function.update_of_ne]
    exact fun he => absurd hlt (Nat.not_lt.mpr (he ▸ hg))

/-- Every step keeps the invariant, and is a step of `CreateMatchConductor` or
one that only lets games go on. -/
theorem step_spec {m m' : MatchConductorManager} {a : Action} (h : m.Inv) (hstep : m.step a = some m') :
    m'.Inv ∧ (a = .create ∧ Created m m' ∨ ∀ g, Advances (m.conductors g) (m'.conductors g)) := by
  cases a with
  | call players =>
    simp only [step] at hstep
    split at hstep
    next hidle =>
      simp only [Option.some.injEq] at hstep
      subst hstep
      have hwhole := h.whole (by simp [hidle])
      exact ⟨h.relocate rfl rfl (by simp [MatchConductorManager.pending, hidle]) (by simp) rfl hwhole,
        .inr fun g => .refl _⟩
    next => exact absurd hstep (by simp)
  | create =>
    simp only [step, Option.bind_eq_some_iff] at hstep
    obtain ⟨r, hr, hm⟩ := hstep
    obtain _ | m'' := r
    · simp [Except.toOption] at hm
    · simp only [Except.toOption, Option.some.injEq] at hm
      subst hm
      obtain ⟨hinv, hcreated⟩ := createStep_spec h hr
      exact ⟨hinv, .inl ⟨rfl, hcreated⟩⟩
  | callEnd =>
    simp only [step] at hstep
    split at hstep
    next =>
      simp only [Option.some.injEq] at hstep
      subst hstep
      exact ⟨h.advance rfl rfl rfl (fun g => .refl _) fun g hg => rfl, .inr fun g => .refl _⟩
    next => exact absurd hstep (by simp)
  | finish =>
    simp only [step, Option.bind_eq_some_iff] at hstep
    obtain ⟨r, hr, hm⟩ := hstep
    obtain _ | m'' := r
    · simp [Except.toOption] at hm
    · simp only [Except.toOption, Option.some.injEq] at hm
      subst hm
      exact ⟨h.finish hr, .inr (endStep_advances hr)⟩
  | game g closed alive =>
    simp only [step, Option.bind_eq_some_iff] at hstep
    obtain ⟨r, hr, hm⟩ := hstep
    obtain _ | ⟨m'', e⟩ := r
    · simp [Except.toOption] at hm
    · simp only [Except.toOption, Option.map_some, Option.some.injEq] at hm
      subst hm
      obtain ⟨c, hc, -, -, rfl⟩ := gameStep_ok hr
      obtain ⟨hinv, hadv⟩ := h.conductorStep hc
      exact ⟨hinv, .inr hadv⟩

/-- Every conductor deleted so far belonged to a thread that had returned. -/
def Outlived (m : MatchConductorManager) : Prop :=
  ∀ g, (m.conductors g).destroyed = true → (m.conductors g).pc = .returned

/-- The condition on a step: a conductor that the clean-up assigns another over
belongs to a thread that has returned. -/
def OverwritesReturned (m : MatchConductorManager) (a : Action) : Prop :=
  a = .create → ∀ g, m.Overwrites g → (m.conductors g).pc = .returned

/-- A step that assigns over the conductor of `g` deletes it as it is. -/
theorem overwrites_deletes {m m' : MatchConductorManager} {g : GameId} (hg : m.Overwrites g)
    (hstep : m.step .create = some m') : m'.conductors g = (m.conductors g).destroy := by
  obtain ⟨ps, r, i, old, hcreate, hold, hc⟩ := hg
  simp only [step, createStep, hcreate, eraseStep, hold] at hstep
  cases hsource : m.matchConductors[i]? with
  | none => simp [hsource, Except.toOption] at hstep
  | some source =>
    simp only [hsource, Except.toOption, Option.bind_some, Option.some.injEq] at hstep
    have hconductors : m'.conductors = (m.delete old.conductor).conductors := by rw [← hstep]; rfl
    rw [hconductors, delete_conductors, if_pos hc]

/-- A step keeps `Outlived` exactly when it meets the condition. -/
theorem Outlived.step_iff {m m' : MatchConductorManager} {a : Action} (h : m.Inv) (ho : m.Outlived)
    (hstep : m.step a = some m') : m'.Outlived ↔ m.OverwritesReturned a := by
  constructor
  · rintro ho' rfl g hg
    have hdeleted := overwrites_deletes hg hstep
    have hreturned := ho' g
    rw [hdeleted] at hreturned
    exact hreturned rfl
  · intro hok g hg
    rcases (step_spec h hstep).2 with ⟨ha, hcreated⟩ | hadv
    · cases hcreated with
      | moved hc => rw [hc] at hg ⊢; exact ho g hg
      | refused _ hc => rw [hc] at hg ⊢; exact ho g hg
      | deleted g' _ hwaited hc =>
        rw [hc, delete_conductors] at hg ⊢
        split
        next heq =>
          simp only [Option.some.injEq] at heq
          subst heq
          exact hwaited.elim (hok ha g') id
        next hne =>
          rw [if_neg hne] at hg
          exact ho g hg
      | made c hc hconductors =>
        by_cases hgm : g = m.made
        · obtain ⟨-, rfl⟩ := construct_ok hc
          simp [hconductors, hgm] at hg
        · rw [hconductors, Function.update_of_ne hgm] at hg ⊢
          exact ho g hg
      | started g' hcreate hc =>
        by_cases hgg : g = g'
        · subst hgg
          rw [hc, Function.update_self] at hg
          have := (h.pending g (by simp [MatchConductorManager.pending, hcreate])).2
          simp [MatchConductor.goto, this] at hg
        · rw [hc, Function.update_of_ne hgg] at hg ⊢
          exact ho g hg
    · exact (hadv g).returned (ho g ((hadv g).destroyed ▸ hg))

/-- What the clean-up keeps: a deleted conductor had finished; and outside it
the vector holds the registered games that are not deleted, each with its own
thread, in the order they were made. -/
structure CleansUp (m : MatchConductorManager) : Prop where
  finished : ∀ g, (m.conductors g).destroyed = true → (m.conductors g).hasFinished = true
  kept : (∀ ps e, m.create ≠ .cleanUp ps e) →
    ∃ games, m.matchConductors = pairs games ∧ games.Pairwise (· < ·) ∧
      ∀ g, g ∈ games ↔ m.Registered g ∧ (m.conductors g).destroyed = false

theorem Inv.cleansUp {m : MatchConductorManager} (h : m.Inv) : m.CleansUp where
  finished := h.finished
  kept hcreate := by
    obtain ⟨games, hslots, hord⟩ := h.whole hcreate
    have howned : m.owned = games := by rw [MatchConductorManager.owned, hslots, filterMap_pairs]
    exact ⟨games, hslots, hord, howned ▸ h.owned⟩

/-- **When a conductor outlives its thread.** In every run of the manager, with
any calls and any games: each conductor is deleted only after its thread
returned, and the clean-up keeps what it should, all along the run, exactly when
at each move of a kept conductor over another the other's thread has returned. -/
theorem conductor_outlives_thread_iff (as : List Action) :
    Transition.Always step (fun m => m.Outlived ∧ m.CleansUp) initial as ↔
      Transition.Guarded step OverwritesReturned initial as := by
  refine Transition.always_iff_guarded (I := Inv) (fun m a m' h hs => (step_spec h hs).1)
    (fun m a m' h hP hs => ?_) Inv.initial ⟨fun g hg => by simp [initial, MatchConductorManager.unmade] at hg,
      Inv.initial.cleansUp⟩ as
  rw [← Outlived.step_iff h hP.1 hs]
  exact ⟨And.left, fun ho => ⟨ho, (step_spec h hs).1.cleansUp⟩⟩

/-- Three calls of `CreateMatchConductor`, each for three players; between the
second and the third, the first game runs to the end of `Finish`, all players
connected. -/
def overtakenRun : List Action :=
  .call [some 0, some 1, some 2] :: List.replicate 8 .create ++
  .call [some 3, some 4, some 5] :: List.replicate 9 .create ++
  List.replicate 24 (.game 0 (fun _ => false) fun _ => true) ++
  .call [some 6, some 7, some 8] :: List.replicate 5 .create

/-- The third call's clean-up deletes the first game's conductor while its
thread is on the way back to read `stop_`. -/
theorem conductor_deleted_before_return :
    ∃ m, Transition.run step initial overtakenRun = some m ∧ (m.conductors 0).destroyed = true ∧
      (m.conductors 0).pc = .head := by
  have h : (Transition.run step initial overtakenRun).map
      (fun m => ((m.conductors 0).destroyed, (m.conductors 0).pc)) = some (true, .head) := by rfl
  obtain ⟨m, hm, hp⟩ := Option.map_eq_some_iff.mp h
  simp only [Prod.mk.injEq] at hp
  exact ⟨m, hm, hp⟩

end MatchConductorManager

end PokerEngine
