/-
Element accesses that can fail, and loops made of them.

`read` gives the element at an index, or the fault of an index behind the end.
`forLoop` and `findLoop` count an index up to a bound, and `FilterView` walks
the elements of a list that satisfy a predicate, iterator by iterator; all of
them stop at the first fault. Their rules (`forLoop_ok`, `forLoop_eq_foldl`,
`findLoop_eq`, `Iterator.loop_eq`) say that no access faults and which list
function the loop computes.
-/
import Mathlib.Data.List.FinRange

namespace PokerEngine

namespace Checked

variable {α σ ε : Type}

/-- `list[index]`. -/
def read (fault : ε) (list : List α) (index : Nat) : Except ε α :=
  match list[index]? with
  | some x => .ok x
  | none => .error fault

theorem read_eq {fault : ε} {list : List α} {index : Nat} (h : index < list.length) :
    read fault list index = .ok list[index] := by
  simp [read, h]

/-- `for (; i < n; i++) s = body(i, s)`. -/
def forLoop (n : Nat) (body : Nat → σ → Except ε σ) (i : Nat) (s : σ) : Except ε σ :=
  if i < n then body i s >>= forLoop n body (i + 1) else .ok s
  termination_by n - i

/-- `for (; i < n; i++) if (test(i)) return i;` -/
def findLoop (n : Nat) (test : Nat → Except ε Bool) (i : Nat) : Except ε (Option (Fin n)) :=
  if h : i < n then do
    if ← test i then return some ⟨i, h⟩
    findLoop n test (i + 1)
  else .ok none
  termination_by n - i

/-- The invariant rule: a loop whose body keeps the invariant and never faults
does not fault. -/
theorem forLoop_ok {n : Nat} {body : Nat → σ → Except ε σ} (inv : Nat → σ → Prop)
    (hbody : ∀ i s, i < n → inv i s → ∃ s', body i s = .ok s' ∧ inv (i + 1) s')
    {i : Nat} {s : σ} (hi : i ≤ n) (hs : inv i s) :
    ∃ s', forLoop n body i s = .ok s' ∧ inv n s' := by
  induction hk : n - i generalizing i s with
  | zero =>
    obtain rfl : i = n := by omega
    rw [forLoop, if_neg (Nat.lt_irrefl _)]
    exact ⟨s, rfl, hs⟩
  | succ k ih =>
    have hlt : i < n := by omega
    obtain ⟨s₁, hs₁, hinv⟩ := hbody i s hlt hs
    rw [forLoop, if_pos hlt, hs₁]
    exact ih hlt hinv (by omega)

/-- A loop that reads a list element by element is a fold. -/
theorem forLoop_eq_foldl {list : List α} {body : Nat → σ → Except ε σ} {f : σ → α → σ}
    (hbody : ∀ i (h : i < list.length) s, body i s = .ok (f s list[i])) {i : Nat} (hi : i ≤ list.length) (s : σ) :
    forLoop list.length body i s = .ok ((list.drop i).foldl f s) := by
  -- What is left of the list, folded from the state so far, stays the same.
  obtain ⟨s', hs', heq⟩ := forLoop_ok (fun j t => (list.drop j).foldl f t = (list.drop i).foldl f s)
    (fun j t hj ht => ⟨f t list[j], hbody j hj t, by
      rw [← ht, List.drop_eq_getElem_cons hj, List.foldl_cons]⟩) hi rfl
  rw [hs', ← heq, List.drop_length]
  rfl

theorem findLoop_eq {n : Nat} {test : Nat → Except ε Bool} {p : Fin n → Bool}
    (h : ∀ i : Fin n, test i = .ok (p i)) : findLoop n test 0 = .ok ((List.finRange n).find? p) := by
  have key : ∀ i ≤ n, findLoop n test i = .ok (((List.finRange n).drop i).find? p) := by
    intro i hi
    induction hk : n - i generalizing i with
    | zero =>
      obtain rfl : i = n := by omega
      rw [findLoop, dif_neg (Nat.lt_irrefl _), List.drop_of_length_le (by simp)]
      rfl
    | succ k ih =>
      have hlt : i < n := by omega
      rw [findLoop, dif_pos hlt, h ⟨i, hlt⟩, List.drop_eq_getElem_cons (by simpa using hlt),
        List.getElem_finRange, List.find?_cons]
      cases hp : p ⟨i, hlt⟩ with
      | true => simp [hp, bind, Except.bind, pure, Except.pure]
      | false => simpa [hp, bind, Except.bind] using ih (i + 1) hlt (by omega)
  exact key 0 (Nat.zero_le n)

end Checked

/-- `base | std::ranges::views::filter(pred)`. -/
structure FilterView (α : Type) where
  base : List α
  pred : α → Bool

namespace FilterView

variable {α σ ε : Type} {v : FilterView α}

/-- An iterator of the view: the end of the base, or a position of it whose
element satisfies the predicate. -/
structure Iterator (v : FilterView α) where
  position : Nat
  position_le : position ≤ v.base.length
  pred_position : ∀ h : position < v.base.length, v.pred v.base[position] = true

/-- `std::ranges::find_if` from position `i` on. -/
def findIf (v : FilterView α) (i : Nat) (hi : i ≤ v.base.length) : v.Iterator :=
  if hlt : i < v.base.length then
    if hp : v.pred v.base[i] = true then ⟨i, hi, fun _ => hp⟩ else v.findIf (i + 1) hlt
  else ⟨i, hi, fun h => absurd h hlt⟩
  termination_by v.base.length - i

/-- `begin()`. -/
def begin (v : FilterView α) : v.Iterator := v.findIf 0 (Nat.zero_le _)

namespace Iterator

/-- `*it`. -/
def deref (fault : ε) (it : v.Iterator) : Except ε α := Checked.read fault v.base it.position

/-- `it++`; the end has no successor. -/
def next (fault : ε) (it : v.Iterator) : Except ε v.Iterator :=
  if h : it.position < v.base.length then .ok (v.findIf (it.position + 1) h) else .error fault

/-- The elements from the iterator on. -/
def rest (it : v.Iterator) : List α := (v.base.drop it.position).filter v.pred

end Iterator

theorem le_position_findIf {i : Nat} (hi : i ≤ v.base.length) : i ≤ (v.findIf i hi).position := by
  fun_induction findIf v i hi with
  | case1 => exact Nat.le_refl _
  | case2 _ _ _ _ ih => omega
  | case3 => exact Nat.le_refl _

theorem rest_findIf {i : Nat} (hi : i ≤ v.base.length) :
    (v.findIf i hi).rest = (v.base.drop i).filter v.pred := by
  fun_induction findIf v i hi with
  | case1 => rfl
  | case2 i hi hlt hp ih =>
    rw [ih, List.drop_eq_getElem_cons hlt, List.filter_cons_of_neg hp]
  | case3 => rfl

/-- The view from its beginning on. -/
theorem rest_begin : v.begin.rest = v.base.filter v.pred := rest_findIf _

namespace Iterator

theorem lt_position_next {fault : ε} {it it' : v.Iterator} (h : it.next fault = .ok it') :
    it.position < it'.position := by
  unfold next at h
  split at h
  · next hlt =>
    cases h
    exact le_position_findIf hlt
  · cases h

/-- `for (; it != end(); it++) s = body(s, *it)`. -/
def loop (fault : ε) (body : σ → α → σ) (it : v.Iterator) (s : σ) : Except ε σ :=
  if it.position = v.base.length then .ok s
  else
    match it.deref fault with
    | .error e => .error e
    | .ok x =>
      match _hnext : it.next fault with
      | .error e => .error e
      | .ok it' => it'.loop fault body (body s x)
  termination_by v.base.length - it.position
  decreasing_by
    have := lt_position_next _hnext
    have := it'.position_le
    omega

theorem rest_eq_cons {it : v.Iterator} (h : it.position < v.base.length) :
    it.rest = v.base[it.position] :: (v.base.drop (it.position + 1)).filter v.pred := by
  rw [rest, List.drop_eq_getElem_cons h, List.filter_cons_of_pos (it.pred_position h)]

/-- An iterator with elements left can be dereferenced and moved on. -/
theorem step_eq {it : v.Iterator} {x : α} {xs : List α} (h : it.rest = x :: xs) (fault : ε) :
    it.position < v.base.length ∧ it.deref fault = .ok x ∧ ∃ it', it.next fault = .ok it' ∧ it'.rest = xs := by
  have hlt : it.position < v.base.length := by
    rcases Nat.lt_or_ge it.position v.base.length with hlt | hge
    · exact hlt
    · rw [rest, List.drop_of_length_le hge] at h
      cases h
  rw [rest_eq_cons hlt, List.cons.injEq] at h
  obtain ⟨rfl, rfl⟩ := h
  exact ⟨hlt, Checked.read_eq hlt, _, dif_pos hlt, rest_findIf hlt⟩

theorem rest_eq_nil {it : v.Iterator} (h : it.rest = []) : it.position = v.base.length := by
  rcases Nat.lt_or_ge it.position v.base.length with hlt | hge
  · rw [rest_eq_cons hlt] at h
    cases h
  · exact Nat.le_antisymm it.position_le hge

/-- The walk to the end is a fold over the elements left. -/
theorem loop_eq {it : v.Iterator} {fault : ε} {body : σ → α → σ} (s : σ) :
    it.loop fault body s = .ok (it.rest.foldl body s) := by
  induction hrest : it.rest generalizing it s with
  | nil => rw [loop, if_pos (rest_eq_nil hrest)]; rfl
  | cons x xs ih =>
    obtain ⟨hlt, hderef, it', hnext, hrest'⟩ := step_eq hrest fault
    rw [loop, if_neg (Nat.ne_of_lt hlt), hderef]
    dsimp only
    split
    · next h => rw [hnext] at h; cases h
    · next h =>
      rw [hnext] at h
      cases h
      exact ih (body s x) hrest'

end Iterator

end FilterView

end PokerEngine
