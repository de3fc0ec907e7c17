/-
A queue served first come, first served, from which waiting entries may be
erased, and which is kept in two stretches: entries are pushed at the end of the
back one, move one by one to the front one, and are taken from there.
-/
import Mathlib.Data.List.Nodup

namespace PokerEngine

/-- What was taken so far, then what waits in front, then what waits in the
back: these are the entries in the order they were pushed, less the erased
ones. -/
structure Fifo {α : Type*} [DecidableEq α] (pushed erased taken front back : List α) : Prop where
  nodup : pushed.Nodup
  pushed_of_erased : ∀ x ∈ erased, x ∈ pushed
  order : taken ++ front ++ back = pushed.filter (fun x => x ∉ erased)

namespace Fifo

variable {α : Type*} [DecidableEq α] {pushed erased taken front back : List α}

theorem nil : Fifo ([] : List α) [] [] [] [] := ⟨.nil, by simp, rfl⟩

/-- Every entry is in one place. -/
theorem nodup_places (h : Fifo pushed erased taken front back) : (taken ++ front ++ back).Nodup :=
  h.order ▸ h.nodup.filter _

theorem mem_pushed {x : α} (h : Fifo pushed erased taken front back) (hx : x ∈ taken ++ front ++ back) :
    x ∈ pushed := by
  rw [h.order] at hx
  exact (List.mem_filter.mp hx).1

theorem push {x : α} (h : Fifo pushed erased taken front back) (hx : x ∉ pushed) :
    Fifo (pushed ++ [x]) erased taken front (back ++ [x]) := by
  have hne : x ∉ erased := fun hmem => hx (h.pushed_of_erased x hmem)
  refine ⟨h.nodup.append (List.nodup_singleton x) (by simpa using hx), fun y hy => ?_, ?_⟩
  · exact List.mem_append_left _ (h.pushed_of_erased y hy)
  · rw [← List.append_assoc, h.order, List.filter_append]
    simp [hne]

/-- The entry at the head of the back stretch moves to the front one. -/
theorem advance {x : α} (h : Fifo pushed erased taken front (x :: back)) :
    Fifo pushed erased taken (front ++ [x]) back :=
  ⟨h.nodup, h.pushed_of_erased, by simpa using h.order⟩

/-- The whole front stretch is taken. -/
theorem take (h : Fifo pushed erased taken front back) : Fifo pushed erased (taken ++ front) [] back :=
  ⟨h.nodup, h.pushed_of_erased, by simpa using h.order⟩

theorem erased_congr {erased' : List α} (h : Fifo pushed erased taken front back)
    (heq : ∀ x, x ∈ erased' ↔ x ∈ erased) : Fifo pushed erased' taken front back := by
  refine ⟨h.nodup, fun x hx => h.pushed_of_erased x ((heq x).mp hx), ?_⟩
  rw [h.order]
  exact List.filter_congr fun x _ => by simp [heq x]

/-- Erasing entries that wait deletes exactly these from the order. -/
theorem order_erase {gone : List α} (h : Fifo pushed erased taken front back) :
    pushed.filter (fun x => x ∉ erased ++ gone) = (taken ++ front ++ back).filter (fun x => x ∉ gone) := by
  rw [h.order, List.filter_filter]
  refine List.filter_congr fun x _ => ?_
  simp [Bool.and_comm]

theorem filter_not_mem_of_disjoint {l gone : List α} (h : l.Disjoint gone) : l.filter (fun x => x ∉ gone) = l :=
  List.filter_eq_self.mpr fun x hx => by simpa using fun hg => h hx hg

theorem filter_not_mem_filter {l : List α} (p : α → Bool) :
    l.filter (fun x => x ∉ l.filter p) = l.filter (fun x => !p x) := by
  refine List.filter_congr fun x hx => ?_
  cases hp : p x <;> simp [hx, hp]

theorem eraseFront (p : α → Bool) (h : Fifo pushed erased taken front back) :
    Fifo pushed (erased ++ front.filter p) taken (front.filter fun x => !p x) back := by
  have hnodup := h.nodup_places
  rw [List.nodup_append', List.nodup_append'] at hnodup
  obtain ⟨⟨-, -, htaken⟩, -, hback⟩ := hnodup
  refine ⟨h.nodup, fun x hx => ?_, ?_⟩
  · rcases List.mem_append.mp hx with hx | hx
    · exact h.pushed_of_erased x hx
    · exact h.mem_pushed (by simp [(List.mem_filter.mp hx).1])
  · have hsub : front.filter p ⊆ front := List.filter_subset_self front
    rw [h.order_erase, List.filter_append, List.filter_append, filter_not_mem_filter,
      filter_not_mem_of_disjoint fun x hx hg => htaken hx (hsub hg),
      filter_not_mem_of_disjoint fun x hx hg => hback (List.mem_append_right _ (hsub hg)) hx]

theorem eraseBack (p : α → Bool) (h : Fifo pushed erased taken front back) :
    Fifo pushed (erased ++ back.filter p) taken front (back.filter fun x => !p x) := by
  have hnodup := h.nodup_places
  rw [List.nodup_append'] at hnodup
  obtain ⟨-, -, hback⟩ := hnodup
  refine ⟨h.nodup, fun x hx => ?_, ?_⟩
  · rcases List.mem_append.mp hx with hx | hx
    · exact h.pushed_of_erased x hx
    · exact h.mem_pushed (by simp [(List.mem_filter.mp hx).1])
  · have hsub : back.filter p ⊆ back := List.filter_subset_self back
    rw [h.order_erase, List.filter_append, filter_not_mem_filter,
      filter_not_mem_of_disjoint fun x hx hg => hback hx (hsub hg)]

end Fifo

end PokerEngine
