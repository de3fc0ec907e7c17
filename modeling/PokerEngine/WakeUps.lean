/-
Threads that sleep on a condition variable until there is something to take. A
wake-up is lost when a thread sleeps while there is more to take than threads
that are going to look or to notify; while none is lost, `NoneLost` holds, and
each thing a thread may do has a rule for it.
-/
import Mathlib.Data.Fintype.Basic
import PokerEngine.Variant

namespace PokerEngine.WakeUps

open Transition (tally)

variable {θ π : Type*} [Fintype θ] {blocked : π → Bool} {owes : π → Nat} {supply supply' : Nat} {place : θ → π}

/-- Nobody sleeps, or for each thing to take there is a thread that owes a look
at it, or a notification of it. -/
def NoneLost (blocked : π → Bool) (owes : π → Nat) (supply : Nat) (place : θ → π) : Prop :=
  (∀ t, blocked (place t) = false) ∨ supply ≤ tally Finset.univ owes place

namespace NoneLost

/-- As long as somebody sleeps beside something to take, somebody is going to
look or to notify. -/
theorem exists_owing (h : NoneLost blocked owes supply place) {t : θ} (ht : blocked (place t) = true)
    (hsupply : 0 < supply) : ∃ u, 0 < owes (place u) := by
  rcases h with hawake | hle
  · exact absurd ht (by simp [hawake t])
  · by_contra hnone
    have hzero : tally Finset.univ owes place = 0 :=
      Transition.tally_eq_zero.mpr fun u _ => Nat.eq_zero_of_not_pos fun hu => hnone ⟨u, hu⟩
    omega

/-- When there is nothing left to take, anybody may sleep. -/
theorem of_empty (hsupply : supply = 0) : NoneLost blocked owes supply place := .inr (hsupply ▸ Nat.zero_le _)

variable [DecidableEq θ] {t u : θ} {x y : π}

theorem tally_move (owes : π → Nat) (place : θ → π) (t : θ) (x : π) :
    tally Finset.univ owes (Function.update place t x) + owes (place t) = tally Finset.univ owes place + owes x :=
  Transition.tally_update (Finset.mem_univ t) x

/-- A thread goes on, awake, and pays for what it adds with what it owes. -/
theorem move (h : NoneLost blocked owes supply place) (hx : blocked x = false)
    (hle : supply' + owes (place t) ≤ supply + owes x) :
    NoneLost blocked owes supply' (Function.update place t x) := by
  rcases h with hawake | hsupply
  · refine .inl fun u => ?_
    by_cases hu : u = t
    · rw [hu, Function.update_self, hx]
    · rw [Function.update_of_ne hu, hawake u]
  · have hsum := tally_move owes place t x
    exact .inr (by omega)

/-- `notify_one`, when `u` sleeps: it is woken, and owes a look. -/
theorem notify (h : NoneLost blocked owes supply place) (htu : t ≠ u) (hx : blocked x = false)
    (hy : blocked y = false) (hu : owes (place u) = 0) (hle : owes (place t) ≤ owes x + owes y) :
    NoneLost blocked owes supply (Function.update (Function.update place u y) t x) := by
  have hwoken : NoneLost blocked owes (supply + owes y) (Function.update place u y) := h.move hy (by omega)
  refine hwoken.move hx ?_
  rw [Function.update_of_ne htu]
  omega

/-- `notify_one`, when nobody sleeps. -/
theorem notify_none (hawake : ∀ v, blocked (place v) = false) (hx : blocked x = false) :
    NoneLost blocked owes supply (Function.update place t x) := by
  refine .inl fun v => ?_
  by_cases hv : v = t
  · rw [hv, Function.update_self, hx]
  · rw [Function.update_of_ne hv, hawake v]

/-- A thread goes to sleep without a look: no wake-up is lost exactly when there
is no more to take than others are going to look at. -/
theorem sleep_iff (hx : blocked x = true) (howes : owes (place t) = owes x) :
    NoneLost blocked owes supply (Function.update place t x) ↔ supply ≤ tally Finset.univ owes place := by
  have hsum := tally_move owes place t x
  have hsame : tally Finset.univ owes (Function.update place t x) = tally Finset.univ owes place := by omega
  refine ⟨fun h => ?_, fun h => .inr (hsame ▸ h)⟩
  rcases h with hawake | hle
  · have hself := hawake t
    rw [Function.update_self, hx] at hself
    simp at hself
  · exact hsame ▸ hle

end NoneLost

end PokerEngine.WakeUps
