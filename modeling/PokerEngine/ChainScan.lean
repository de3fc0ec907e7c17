/-
The longest block of related neighbours, in one pass.

`ChainScan` walks a list with a running counter and a maximum: the counter
grows while each element is related to the one before it and falls back to 0
otherwise. `longest_isGreatest` says what the maximum is when the walk ends: the
largest number of successive related steps in any contiguous block.

`range'_infix_iff` says which blocks of successive numbers a sorted list has:
those whose inner numbers it holds once.
-/
import Mathlib.Data.List.Chain
import Mathlib.Data.List.Infix
import Mathlib.Data.List.Nodup
import Mathlib.Order.Bounds.Basic

namespace PokerEngine

/-- The walk's state: the previous element, the steps since the last break,
the most steps seen. -/
structure ChainScan (α : Type*) where
  previous : α
  current : Nat
  longest : Nat

namespace ChainScan

variable {α : Type*} (R : α → α → Prop) [DecidableRel R]

def start (a : α) : ChainScan α := ⟨a, 0, 0⟩

def next (s : ChainScan α) (x : α) : ChainScan α :=
  if R s.previous x then ⟨x, s.current + 1, max s.longest (s.current + 1)⟩ else ⟨x, 0, s.longest⟩

/-- The walk over `a :: l`. -/
def scan (a : α) (l : List α) : ChainScan α := l.foldl (next R) (start a)

theorem scan_concat (a : α) (l : List α) (x : α) : scan R a (l ++ [x]) = next R (scan R a l) x := by
  simp [scan]

theorem previous_next (s : ChainScan α) (x : α) : (next R s x).previous = x := by
  unfold next; split <;> rfl

theorem previous_scan (a : α) (l : List α) : (a :: l).getLast? = some (scan R a l).previous := by
  rcases List.eq_nil_or_concat l with rfl | ⟨l, x, rfl⟩
  · rfl
  · rw [List.concat_eq_append, scan_concat, previous_next, ← List.cons_append, List.getLast?_concat]

omit [DecidableRel R] in
/-- A block with `x` after it is a chain when the block is one and its last
element is related to `x`. -/
theorem isChain_concat {b : List α} {x : α} :
    (b ++ [x]).IsChain R ↔ b.IsChain R ∧ ∀ y ∈ b.getLast?, R y x := by
  simp [List.isChain_append]

/-- The counter is at least `n` when some chain of `n` steps ends the list. -/
theorem le_current_iff (a : α) (l : List α) (n : Nat) :
    n ≤ (scan R a l).current ↔ ∃ b, b <:+ a :: l ∧ b.IsChain R ∧ b.length = n + 1 := by
  induction l using List.reverseRecOn generalizing n with
  | nil =>
    constructor
    · intro h
      obtain rfl : n = 0 := Nat.le_zero.mp h
      exact ⟨[a], List.suffix_refl _, List.isChain_singleton a, rfl⟩
    · intro ⟨b, hb, _, hlen⟩
      have := hb.length_le
      simp only [List.length_cons, List.length_nil] at this
      simp only [scan, start, List.foldl_nil]
      omega
  | append_singleton l x ih =>
    rw [scan_concat, ← List.cons_append]
    have hprev := previous_scan R a l
    constructor
    · intro h
      cases n with
      | zero => exact ⟨[x], List.suffix_append _ _, List.isChain_singleton x, rfl⟩
      | succ n =>
        unfold next at h
        split at h
        · next hR =>
          obtain ⟨b, hb, hc, hlen⟩ := (ih n).mp (by simpa using h)
          refine ⟨b ++ [x], List.suffix_concat_iff.mpr (.inr ⟨b, rfl, hb⟩),
            (isChain_concat R).mpr ⟨hc, fun y hy => ?_⟩, by simp [hlen]⟩
          have hne : b ≠ [] := by rintro rfl; simp at hlen
          have hlast : b.getLast? = (a :: l).getLast? := by
            obtain ⟨t, ht⟩ := hb
            rw [← ht, List.getLast?_append_of_ne_nil _ hne]
          rw [hlast, hprev] at hy
          obtain rfl : _ = y := Option.some.inj hy
          exact hR
        · simp at h
    · intro ⟨b, hb, hc, hlen⟩
      rcases List.suffix_concat_iff.mp hb with rfl | ⟨t, rfl, ht⟩
      · simp at hlen
      simp only [List.length_append, List.length_cons, List.length_nil] at hlen
      obtain ⟨hct, hstep⟩ := (isChain_concat R).mp hc
      cases n with
      | zero => exact Nat.zero_le _
      | succ n =>
        have hne : t ≠ [] := by rintro rfl; simp at hlen
        have hlast : t.getLast? = (a :: l).getLast? := by
          obtain ⟨t', ht'⟩ := ht
          rw [← ht', List.getLast?_append_of_ne_nil _ hne]
        have hR : R (scan R a l).previous x := hstep _ (by rw [hlast, hprev]; rfl)
        have := (ih n).mpr ⟨t, ht, hct, by omega⟩
        simp only [next, hR, if_true]
        omega

/-- **The longest block.** The maximum is at least `n` when some contiguous
block of the list makes `n` successive related steps. -/
theorem le_longest_iff (a : α) (l : List α) (n : Nat) :
    n ≤ (scan R a l).longest ↔ ∃ b, b <:+: a :: l ∧ b.IsChain R ∧ b.length = n + 1 := by
  induction l using List.reverseRecOn with
  | nil =>
    constructor
    · intro h
      obtain rfl : n = 0 := Nat.le_zero.mp h
      exact ⟨[a], List.infix_refl _, List.isChain_singleton a, rfl⟩
    · intro ⟨b, hb, _, hlen⟩
      have := hb.length_le
      simp only [List.length_cons, List.length_nil] at this
      simp only [scan, start, List.foldl_nil]
      omega
  | append_singleton l x ih =>
    have hcur := le_current_iff R a (l ++ [x]) n
    rw [← List.cons_append] at hcur ⊢
    have hsplit : n ≤ (scan R a (l ++ [x])).longest ↔
        n ≤ (scan R a (l ++ [x])).current ∨ n ≤ (scan R a l).longest := by
      rw [scan_concat]
      unfold next
      split
      · simp only; omega
      · simp only [Nat.le_zero]
        constructor
        · exact .inr
        · rintro (rfl | h)
          · exact Nat.zero_le _
          · exact h
    rw [hsplit, hcur, ih]
    constructor
    · rintro (⟨b, hb, h⟩ | ⟨b, hb, h⟩)
      · exact ⟨b, hb.isInfix, h⟩
      · exact ⟨b, List.infix_concat_iff.mpr (.inr hb), h⟩
    · intro ⟨b, hb, h⟩
      rcases List.infix_concat_iff.mp hb with hb | hb
      · exact .inl ⟨b, hb, h⟩
      · exact .inr ⟨b, hb, h⟩

/-- The counter stays below a bound that every related step raises. -/
theorem current_le {f : α → Nat} (hf : ∀ x y, R x y → f x < f y) (a : α) (l : List α) :
    (scan R a l).current ≤ f (scan R a l).previous := by
  induction l using List.reverseRecOn with
  | nil => exact Nat.zero_le _
  | append_singleton l x ih =>
    rw [scan_concat]
    unfold next
    split
    · next hR => have := hf _ _ hR; simp only; omega
    · exact Nat.zero_le _

/-- So does the maximum, when the bound never passes `m`. -/
theorem longest_le {f : α → Nat} (hf : ∀ x y, R x y → f x < f y) {m : Nat} (hm : ∀ x, f x ≤ m)
    (a : α) (l : List α) : (scan R a l).longest ≤ m := by
  induction l using List.reverseRecOn with
  | nil => exact Nat.zero_le _
  | append_singleton l x ih =>
    have hcur := current_le R hf a (l ++ [x])
    rw [scan_concat] at hcur ⊢
    unfold next at hcur ⊢
    split
    · next hR =>
      rw [if_pos hR] at hcur
      exact Nat.max_le.mpr ⟨ih, Nat.le_trans hcur (hm x)⟩
    · exact ih

/-- The counter is the number of steps of the longest chain that ends the list. -/
theorem current_isGreatest (a : α) (l : List α) :
    IsGreatest {n | ∃ b, b <:+ a :: l ∧ b.IsChain R ∧ b.length = n + 1} (scan R a l).current :=
  ⟨(le_current_iff R a l _).mp (Nat.le_refl _), fun n hn => (le_current_iff R a l n).mpr hn⟩

/-- The maximum is the number of steps of the longest chain in the list. -/
theorem longest_isGreatest (a : α) (l : List α) :
    IsGreatest {n | ∃ b, b <:+: a :: l ∧ b.IsChain R ∧ b.length = n + 1} (scan R a l).longest :=
  ⟨(le_longest_iff R a l _).mp (Nat.le_refl _), fun n hn => (le_longest_iff R a l n).mpr hn⟩

end ChainScan

/-! ## Successive numbers in a sorted list -/

/-- A chain of `+1` steps lists successive numbers. -/
theorem isChain_succ_iff {l : List Nat} {n : Nat} :
    l.IsChain (fun x y => y = x + 1) ∧ l.length = n + 1 ↔ ∃ low, l = List.range' low (n + 1) := by
  induction l generalizing n with
  | nil => simp
  | cons x l ih =>
    rw [List.isChain_cons]
    constructor
    · intro ⟨⟨hhead, hl⟩, hlen⟩
      refine ⟨x, ?_⟩
      cases n with
      | zero => simpa using hlen
      | succ n =>
        obtain ⟨low, rfl⟩ := (ih (n := n)).mp ⟨hl, by simpa using hlen⟩
        have : low = x + 1 := hhead low (by simp [List.range'_succ])
        subst this
        simp [List.range'_succ]
    · intro ⟨low, h⟩
      rw [List.range'_succ, List.cons.injEq] at h
      obtain ⟨rfl, rfl⟩ := h
      cases n with
      | zero => simp
      | succ n =>
        have := (ih (n := n)).mpr ⟨x + 1, rfl⟩
        exact ⟨⟨fun y hy => by simpa [List.range'_succ] using hy.symm, this.1⟩, by simp⟩

section Sorted

variable {l : List Nat}

theorem head_of_forall_le (hl : l.Pairwise (· ≤ ·)) {low : Nat} (hle : ∀ x ∈ l, low ≤ x) (hmem : low ∈ l) :
    ∃ t, l = low :: t := by
  cases l with
  | nil => simp at hmem
  | cons x t =>
    rcases List.mem_cons.mp hmem with rfl | ht
    · exact ⟨t, rfl⟩
    · have h₁ := (List.pairwise_cons.mp hl).1 low ht
      have h₂ := hle x (by simp)
      exact ⟨t, by rw [Nat.le_antisymm h₁ h₂]⟩

/-- A sorted list from `low` on starts with `low … low + n` when it holds them
all, and all but the last of them once. -/
theorem range'_begins {n low : Nat} (hl : l.Pairwise (· ≤ ·)) (hle : ∀ x ∈ l, low ≤ x)
    (hmem : ∀ k ≤ n, low + k ∈ l) (honce : ∀ k < n, l.count (low + k) = 1) :
    List.range' low (n + 1) <+: l := by
  induction n generalizing low l with
  | zero =>
    obtain ⟨t, rfl⟩ := head_of_forall_le hl hle (hmem 0 (Nat.le_refl _))
    simp
  | succ n ih =>
    obtain ⟨t, rfl⟩ := head_of_forall_le hl hle (hmem 0 (Nat.zero_le _))
    obtain ⟨hhead, ht⟩ := List.pairwise_cons.mp hl
    have hnot : low ∉ t := by
      have := honce 0 (Nat.succ_pos n)
      rw [Nat.add_zero, List.count_cons_self] at this
      exact List.count_eq_zero.mp (by omega)
    rw [List.range'_succ, List.cons_prefix_cons]
    refine ⟨rfl, ih ht (fun x hx => ?_) (fun k hk => ?_) (fun k hk => ?_)⟩
    · have := hhead x hx
      have : x ≠ low := fun h => hnot (h ▸ hx)
      omega
    · have := hmem (k + 1) (by omega)
      rw [show low + 1 + k = low + (k + 1) by omega]
      exact (List.mem_cons.mp this).resolve_left (by omega)
    · have := honce (k + 1) (by omega)
      rw [show low + 1 + k = low + (k + 1) by omega]
      rwa [List.count_cons_of_ne (by omega)] at this

/-- **Successive neighbours in a sorted list.** `low … low + n` stand next to
each other when the list holds them all, and the inner ones once. -/
theorem range'_infix_iff {n low : Nat} (hl : l.Pairwise (· ≤ ·)) :
    List.range' low (n + 1) <:+: l ↔
      (∀ k ≤ n, low + k ∈ l) ∧ ∀ k < n, 0 < k → l.count (low + k) = 1 := by
  constructor
  · rintro ⟨p, s, rfl⟩
    refine ⟨fun k hk => ?_, fun k hk h0 => ?_⟩
    · simp only [List.mem_append, List.mem_range'_1]
      exact .inl (.inr ⟨by omega, by omega⟩)
    · have hp : low + k ∉ p := fun h => by
        have := (List.pairwise_append.mp (List.pairwise_append.mp hl).1).2.2 _ h low (by simp)
        omega
      have hs : low + k ∉ s := fun h => by
        have := (List.pairwise_append.mp hl).2.2 (low + n)
          (by simp only [List.mem_append, List.mem_range'_1]; right; omega) _ h
        omega
      have hblock : (List.range' low (n + 1)).count (low + k) = 1 :=
        List.count_eq_one_of_mem List.nodup_range' (by simp only [List.mem_range'_1]; omega)
      rw [List.count_append, List.count_append, List.count_eq_zero.mpr hp, List.count_eq_zero.mpr hs, hblock]
  · intro ⟨hmem, honce⟩
    induction l with
    | nil => exact absurd (hmem 0 (Nat.zero_le _)) (by simp)
    | cons x t ih =>
      obtain ⟨hhead, ht⟩ := List.pairwise_cons.mp hl
      by_cases hlow : low ∈ t
      -- The block lies behind `x`, which is at most `low`.
      · have hx := hhead low hlow
        refine (ih ht (fun k hk => ?_) (fun k hk h0 => ?_)).trans (List.suffix_cons x t).isInfix
        · rcases Nat.eq_zero_or_pos k with rfl | h0
          · exact hlow
          · exact (List.mem_cons.mp (hmem k hk)).resolve_left (by omega)
        · rw [← honce k hk h0, List.count_cons_of_ne (by omega)]
      -- `x` is the last `low`.
      · obtain rfl : low = x := (List.mem_cons.mp (hmem 0 (Nat.zero_le _))).resolve_right hlow
        refine (range'_begins hl (fun y hy => ?_) hmem fun k hk => ?_).isInfix
        · rcases List.mem_cons.mp hy with rfl | hy
          · exact Nat.le_refl _
          · exact hhead y hy
        · rcases Nat.eq_zero_or_pos k with rfl | h0
          · rw [Nat.add_zero, List.count_cons_self, List.count_eq_zero.mpr hlow]
          · exact honce k hk h0

end Sorted

end PokerEngine
