/-
Stable sorting under a strict weak order, and binary search in a sorted list.

`IsStableSort lt vs l` says that `l` is `vs` in ascending order, equivalent
values in the order they have in `vs`. There is one such list
(`IsStableSort.unique`), the one `List.mergeSort` gives, and inserting one more
value where `upperBound` points keeps it (`IsStableSort.insertIdx`).
-/
import Mathlib.Order.Comparable
import Mathlib.Order.Defs.Unbundled
import Mathlib.Data.List.InsertIdx

namespace PokerEngine

variable {α : Type*} (lt : α → α → Prop)

/-- No value is less than one before it. -/
def Nondescending (l : List α) : Prop := l.Pairwise fun a b => ¬ lt b a

/-- `l` is `vs` sorted stably. -/
structure IsStableSort [DecidableRel lt] (vs l : List α) : Prop where
  sorted : Nondescending lt l
  perm : l.Perm vs
  /-- The values equivalent to `a`, in the order they had. -/
  stable : ∀ a, l.filter (IncompRel lt a) = vs.filter (IncompRel lt a)

/-- The binary search of `upperBound` over the `count` positions from `first`
on. -/
def upperBoundFrom [DecidableRel lt] (l : List α) (value : α) (first count : Nat)
    (h : first + count ≤ l.length) : Nat :=
  if hcount : count = 0 then first
  else
    let step := count / 2
    if lt value (l[first + step]) then upperBoundFrom l value first step (by omega)
    else upperBoundFrom l value (first + step + 1) (count - (step + 1)) (by omega)
termination_by count

/-- The first position of `l` whose value is greater than `value`, or the end,
by bisection. -/
def upperBound [DecidableRel lt] (l : List α) (value : α) : Nat :=
  upperBoundFrom lt l value 0 l.length (by omega)

variable {lt}

section StrictWeakOrder

variable [IsStrictWeakOrder α lt] {l : List α} {value : α}

theorem not_lt_trans {a b c : α} (hab : ¬ lt a b) (hbc : ¬ lt b c) : ¬ lt a c := by
  intro hac
  have hba : ¬ lt b a := fun h => hbc (trans_of lt h hac)
  have hcb : ¬ lt c b := fun h => hab (trans_of lt hac h)
  exact (IsStrictWeakOrder.incomp_trans a b c ⟨hab, hba⟩ ⟨hbc, hcb⟩).1 hac

theorem lt_of_lt_of_not_lt {a b c : α} (hab : lt a b) (hcb : ¬ lt c b) : lt a c := by
  by_contra hac
  exact not_lt_trans hac hcb hab

theorem Nondescending.lt_of_mem_drop (h : Nondescending lt l) {m : Nat} (hm : m < l.length)
    (hlt : lt value l[m]) : ∀ x ∈ l.drop m, lt value x := by
  have hdrop : Nondescending lt (l.drop m) := h.sublist (List.drop_sublist ..)
  rw [List.drop_eq_getElem_cons hm] at hdrop ⊢
  intro x hx
  rcases List.mem_cons.mp hx with rfl | hx
  · exact hlt
  · exact lt_of_lt_of_not_lt hlt (List.rel_of_pairwise_cons hdrop hx)

theorem Nondescending.not_lt_of_mem_take (h : Nondescending lt l) {m : Nat} (hm : m < l.length)
    (hle : ¬ lt value l[m]) : ∀ x ∈ l.take (m + 1), ¬ lt value x := by
  have htake : Nondescending lt (l.take (m + 1)) := h.sublist (List.take_sublist ..)
  rw [List.take_succ_eq_append_getElem hm] at htake ⊢
  intro x hx
  rcases List.mem_append.mp hx with hx | hx
  · exact not_lt_trans hle ((List.pairwise_append.mp htake).2.2 x hx _ (List.mem_singleton_self _))
  · exact List.mem_singleton.mp hx ▸ hle

variable [DecidableRel lt]

/-- The loop's invariant: the values in front of the range searched are not
greater, those behind it are. -/
theorem upperBoundFrom_spec (h : Nondescending lt l) (first count : Nat) (hb : first + count ≤ l.length)
    (hle : ∀ x ∈ l.take first, ¬ lt value x) (hlt : ∀ x ∈ l.drop (first + count), lt value x) :
    upperBoundFrom lt l value first count hb ≤ l.length ∧
      (∀ x ∈ l.take (upperBoundFrom lt l value first count hb), ¬ lt value x) ∧
      ∀ x ∈ l.drop (upperBoundFrom lt l value first count hb), lt value x := by
  induction count using Nat.strong_induction_on generalizing first with
  | h count ih =>
    rw [upperBoundFrom]
    split
    · next hcount =>
      subst hcount
      exact ⟨hb, hle, hlt⟩
    · next hcount =>
      have hm : first + count / 2 < l.length := by omega
      dsimp only
      split
      · next hgt => exact ih _ (by omega) _ _ hle (h.lt_of_mem_drop hm hgt)
      · next hngt =>
        refine ih _ (by omega) _ _ (h.not_lt_of_mem_take hm hngt) ?_
        rwa [show first + count / 2 + 1 + (count - (count / 2 + 1)) = first + count by omega]

theorem upperBound_spec (h : Nondescending lt l) (value : α) :
    upperBound lt l value ≤ l.length ∧ (∀ x ∈ l.take (upperBound lt l value), ¬ lt value x) ∧
      ∀ x ∈ l.drop (upperBound lt l value), lt value x :=
  upperBoundFrom_spec h 0 l.length _ (by simp) (by simp)

end StrictWeakOrder

theorem insertIdx_eq_take_append_drop {l : List α} (a : α) {p : Nat} (hp : p ≤ l.length) :
    l.insertIdx p a = l.take p ++ a :: l.drop p := by
  induction p generalizing l with
  | zero => simp
  | succ p ih =>
    cases l with
    | nil => simp at hp
    | cons b t => simp [ih (Nat.le_of_succ_le_succ hp)]

namespace IsStableSort

variable [DecidableRel lt] {vs l l' : List α}

/-- Equivalent values in one order, and the rest by `lt`: there is one such
list. -/
theorem eq_of_filter_eq [Std.Irrefl lt] (h : Nondescending lt l) (h' : Nondescending lt l')
    (hf : ∀ a, l.filter (IncompRel lt a) = l'.filter (IncompRel lt a)) : l = l' := by
  induction l generalizing l' with
  | nil =>
    cases l' with
    | nil => rfl
    | cons b t' => simpa [IncompRel.refl] using hf b
  | cons a t ih =>
    cases l' with
    | nil => simpa [IncompRel.refl] using hf a
    | cons b t' =>
      have hab : a = b := by
        by_cases hinc : IncompRel lt a b
        · simpa [List.filter_cons, hinc, IncompRel.refl] using congrArg List.head? (hf a)
        · -- each head is in the other list, so neither is less than the other
          have ha : a ∈ (b :: t').filter (IncompRel lt a) := hf a ▸ by simp [IncompRel.refl]
          have hb : b ∈ (a :: t).filter (IncompRel lt b) := hf b ▸ by simp [IncompRel.refl]
          have hba : ¬ lt b a := by
            rcases List.mem_cons.mp (List.mem_filter.mp hb |>.1) with rfl | hb
            · exact irrefl_of lt b
            · exact List.rel_of_pairwise_cons h hb
          have hab : ¬ lt a b := by
            rcases List.mem_cons.mp (List.mem_filter.mp ha |>.1) with rfl | ha
            · exact irrefl_of lt a
            · exact List.rel_of_pairwise_cons h' ha
          exact absurd ⟨hab, hba⟩ hinc
      subst hab
      rw [ih h.of_cons h'.of_cons fun c => ?_]
      have hc := hf c
      by_cases hinc : IncompRel lt c a
      · simpa [List.filter_cons, hinc] using hc
      · simpa [List.filter_cons, hinc] using hc

theorem unique [Std.Irrefl lt] (h : IsStableSort lt vs l) (h' : IsStableSort lt vs l') : l = l' :=
  eq_of_filter_eq h.sorted h'.sorted fun a => (h.stable a).trans (h'.stable a).symm

theorem nil : IsStableSort lt [] [] := ⟨.nil, .nil, fun _ => rfl⟩

variable [IsStrictWeakOrder α lt]

theorem mergeSort (vs : List α) : IsStableSort lt vs (vs.mergeSort fun a b => ¬ lt b a) := by
  have htrans (a b c : α) (hab : decide (¬ lt b a)) (hbc : decide (¬ lt c b)) : decide (¬ lt c a) := by
    rw [decide_eq_true_iff] at hab hbc ⊢
    exact not_lt_trans hbc hab
  have htotal (a b : α) : (decide (¬ lt b a) || decide (¬ lt a b)) = true := by
    by_cases hab : lt a b
    · simp [asymm_of lt hab]
    · simp [hab]
  refine ⟨(List.pairwise_mergeSort htrans htotal vs).imp of_decide_eq_true, List.mergeSort_perm .., fun a => ?_⟩
  -- the values equivalent to `a` are in order already, and so keep it
  have hclass : (vs.filter (IncompRel lt a)).Pairwise fun b c => decide (¬ lt c b) := by
    refine List.pairwise_of_forall_mem_list fun b hb c hc => ?_
    simp only [List.mem_filter, decide_eq_true_iff] at hb hc ⊢
    exact not_lt_trans hc.2.2 hb.2.1
  have hsub := (List.sublist_mergeSort htrans htotal hclass List.filter_sublist).filter (IncompRel lt a)
  rw [List.filter_filter, List.filter_congr fun b _ => Bool.and_self _] at hsub
  exact (hsub.eq_of_length ((List.mergeSort_perm ..).filter _).length_eq.symm).symm

/-- A value put after those it is not less than, and before those it is less
than, was the last to come. -/
theorem insertIdx (h : IsStableSort lt vs l) {value : α} {p : Nat} (hp : p ≤ l.length)
    (hle : ∀ x ∈ l.take p, ¬ lt value x) (hlt : ∀ x ∈ l.drop p, lt value x) :
    IsStableSort lt (vs ++ [value]) (l.insertIdx p value) := by
  have hsplit := insertIdx_eq_take_append_drop value hp
  have htake : Nondescending lt (l.take p) := h.sorted.sublist (List.take_sublist ..)
  have hdrop : Nondescending lt (l.drop p) := h.sorted.sublist (List.drop_sublist ..)
  constructor
  case sorted =>
    rw [hsplit]
    refine List.pairwise_append.mpr ⟨htake, List.pairwise_cons.mpr ⟨?_, hdrop⟩, ?_⟩
    · intro x hx
      exact asymm_of lt (hlt x hx)
    · intro x hx y hy
      rcases List.mem_cons.mp hy with rfl | hy
      · exact hle x hx
      · exact fun hyx => hle x hx (trans_of lt (hlt y hy) hyx)
  case perm =>
    calc
      (l.insertIdx p value).Perm (value :: l) := List.perm_insertIdx _ _ hp
      (value :: l).Perm (value :: vs) := h.perm.cons value
      (value :: vs).Perm (vs ++ [value]) := (List.perm_append_singleton value vs).symm
  case stable =>
    intro a
    rw [hsplit, List.filter_append, List.filter_append, ← h.stable a]
    conv_rhs => rw [← List.take_append_drop p l, List.filter_append]
    by_cases hinc : IncompRel lt a value
    · -- what comes after the value is greater, and so is not equivalent to `a`
      have hnone : (l.drop p).filter (IncompRel lt a) = [] := by
        refine List.filter_eq_nil_iff.mpr fun x hx hax => ?_
        exact not_lt_trans hinc.2 (of_decide_eq_true hax).1 (hlt x hx)
      simp [hinc, hnone]
    · simp [hinc]

end IsStableSort

end PokerEngine
