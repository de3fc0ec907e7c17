/-
Threads that take mutexes and join each other: who holds what, who waits for
whom, and the rule that an order on what is waited for excludes a cycle.

`holds` and `asks` say what the threads' places mean; `holder` is what the
mutexes record.
-/
import Mathlib.Logic.Function.Basic
import Mathlib.Logic.Relation

namespace PokerEngine.LockOrder

variable {Thread Mutex : Type*}

/-- The mutexes record as holders exactly the threads whose places hold them. -/
def Owned (holder : Mutex → Option Thread) (holds : Thread → Mutex → Prop) : Prop :=
  ∀ m t, holder m = some t ↔ holds t m

namespace Owned

variable {holder holder' : Mutex → Option Thread} {holds holds' : Thread → Mutex → Prop} {t u : Thread}

/-- A mutex is held by one thread at a time. -/
theorem unique {m : Mutex} (h : Owned holder holds) (ht : holds t m) (hu : holds u m) : t = u :=
  Option.some.inj (((h m t).mpr ht).symm.trans ((h m u).mpr hu))

/-- A step that leaves the mutexes alone. -/
theorem keep (h : Owned holder holds) (hholder : ∀ m, holder' m = holder m)
    (hself : ∀ m, holds' t m ↔ holds t m) (hother : ∀ u, u ≠ t → ∀ m, holds' u m ↔ holds u m) :
    Owned holder' holds' := by
  intro m u
  rw [hholder, h m u]
  by_cases hu : u = t
  · exact hu ▸ (hself m).symm
  · exact (hother u hu m).symm

/-- A thread takes the mutexes in `ms`, which are free. -/
theorem acquire {ms : List Mutex} (h : Owned holder holds) (hfree : ∀ m ∈ ms, holder m = none)
    (htaken : ∀ m ∈ ms, holder' m = some t) (hkept : ∀ m, m ∉ ms → holder' m = holder m)
    (hself : ∀ m, holds' t m ↔ holds t m ∨ m ∈ ms) (hother : ∀ u, u ≠ t → ∀ m, holds' u m ↔ holds u m) :
    Owned holder' holds' := by
  intro m u
  by_cases hm : m ∈ ms
  · rw [htaken m hm]
    by_cases hu : u = t
    · simp [hu, hself, hm]
    · have hnot : ¬ holds u m := fun hh => by
        have hheld := (h m u).mpr hh
        rw [hfree m hm] at hheld
        exact absurd hheld (by simp)
      simp [hother u hu, hnot, Ne.symm hu]
  · rw [hkept m hm, h m u]
    by_cases hu : u = t
    · simp [hu, hself, hm]
    · exact (hother u hu m).symm

/-- A thread gives back the mutexes in `ms`, which it holds. -/
theorem release {ms : List Mutex} (h : Owned holder holds) (hheld : ∀ m ∈ ms, holds t m)
    (hgiven : ∀ m ∈ ms, holder' m = none) (hkept : ∀ m, m ∉ ms → holder' m = holder m)
    (hself : ∀ m, holds' t m ↔ holds t m ∧ m ∉ ms) (hother : ∀ u, u ≠ t → ∀ m, holds' u m ↔ holds u m) :
    Owned holder' holds' := by
  intro m u
  by_cases hm : m ∈ ms
  · rw [hgiven m hm]
    by_cases hu : u = t
    · simp [hu, hself, hm]
    · have hnot : ¬ holds u m := fun hh => hu (h.unique hh (hheld m hm))
      simp [hother u hu, hnot]
  · rw [hkept m hm, h m u]
    by_cases hu : u = t
    · simp [hu, hself, hm]
    · exact (hother u hu m).symm

end Owned

/-- A thread waits for the holder of a mutex it asks for, or for a thread it
joins. -/
def WaitsFor (holder : Mutex → Option Thread) (asks : Thread → Mutex → Prop) (joins : Thread → Thread → Prop)
    (t u : Thread) : Prop :=
  (∃ m, asks t m ∧ holder m = some u) ∨ joins t u

section Rank

variable {holder : Mutex → Option Thread} {asks holds : Thread → Mutex → Prop} {joins : Thread → Thread → Prop}

/-- When every thread ranks at most as high as the mutexes it asks for, above
those it holds, and below the threads it joins, it ranks below every thread it
waits for. -/
theorem WaitsFor.rank_lt (rank : Thread → Nat) (level : Mutex → Nat) (hholder : Owned holder holds)
    (hasks : ∀ t m, asks t m → rank t ≤ level m) (hholds : ∀ t m, holds t m → level m < rank t)
    (hjoins : ∀ t u, joins t u → rank t < rank u) {t u : Thread} (h : WaitsFor holder asks joins t u) :
    rank t < rank u := by
  rcases h with ⟨m, ha, hh⟩ | hj
  · exact Nat.lt_of_le_of_lt (hasks t m ha) (hholds u m ((hholder m u).mp hh))
  · exact hjoins t u hj

end Rank

section Chains

variable {waits : Thread → Thread → Prop} {rank : Thread → Nat} (hlt : ∀ t u, waits t u → rank t < rank u)
include hlt

/-- **The rank rule.** When every thread ranks below those it waits for, no
thread waits for itself around any cycle. -/
theorem no_cycle (t : Thread) : ¬ Relation.TransGen waits t t := by
  have hpath : ∀ u, Relation.TransGen waits t u → rank t < rank u := by
    intro u h
    induction h with
    | single h => exact hlt _ _ h
    | tail _ h ih => exact Nat.lt_trans ih (hlt _ _ h)
  exact fun h => Nat.lt_irrefl _ (hpath t h)

end Chains

end PokerEngine.LockOrder
