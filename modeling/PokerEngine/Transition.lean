/-
Machines given by a partial step function: runs over lists of actions, what
holds in every state of a run, what its steps show, and the rules for showing
both.

`step s a = none` means that the action `a` cannot be taken in `s`; a run ends
there.
-/
import Mathlib.Data.List.Basic

namespace PokerEngine.Transition

variable {σ α : Type*} (step : σ → α → Option σ)

/-- The state after taking `as` in order, when each can be taken in its turn. -/
def run : σ → List α → Option σ
  | s, [] => some s
  | s, a :: as => (step s a).bind fun s' => run s' as

/-- `P` holds in every state of the run. -/
def Always (P : σ → Prop) : σ → List α → Prop
  | s, [] => P s
  | s, a :: as => P s ∧ ∀ s', step s a = some s' → Always P s' as

/-- Every step of the run meets `ok`, a condition on the state before the step
and the action taken. -/
def Guarded (ok : σ → α → Prop) : σ → List α → Prop
  | _, [] => True
  | s, a :: as => ∀ s', step s a = some s' → ok s a ∧ Guarded ok s' as

/-- What the steps of a run show, in order: each what `obs` makes of the state
before it, the action and the state after it. -/
def observed {β : Type*} (obs : σ → α → σ → List β) : σ → List α → List β
  | _, [] => []
  | s, a :: as => (step s a).elim [] fun s' => obs s a s' ++ observed obs s' as

variable {step}

theorem run_cons_some {s t : σ} {a : α} {as : List α} :
    run step s (a :: as) = some t ↔ ∃ s', step s a = some s' ∧ run step s' as = some t := by
  simp [run, Option.bind_eq_some_iff]

theorem run_append (s : σ) (as bs : List α) :
    run step s (as ++ bs) = (run step s as).bind fun s' => run step s' bs := by
  induction as generalizing s with
  | nil => rfl
  | cons a as ih => simp only [List.cons_append, run, Option.bind_assoc, ih]

theorem Always.head {P : σ → Prop} {s : σ} {as : List α} (h : Always step P s as) : P s := by
  cases as with
  | nil => exact h
  | cons => exact h.1

theorem Always.mono {P Q : σ → Prop} (h : ∀ s, P s → Q s) {s : σ} {as : List α} (hP : Always step P s as) :
    Always step Q s as := by
  induction as generalizing s with
  | nil => exact h s hP
  | cons a as ih => exact ⟨h s hP.1, fun s' hs => ih (hP.2 s' hs)⟩

/-- **The invariant rule.** What holds at the start and is kept by every step
holds in every state of every run. -/
theorem always_of_invariant {I : σ → Prop} (hstep : ∀ s a s', I s → step s a = some s' → I s') {s : σ}
    (hs : I s) (as : List α) : Always step I s as := by
  induction as generalizing s with
  | nil => exact hs
  | cons a as ih => exact ⟨hs, fun s' ha => ih (hstep s a s' hs ha)⟩

/-- **The exact rule.** Under an invariant, when a step keeps `P` exactly if it
meets `ok`, then `P` holds all along a run exactly if all its steps meet it. -/
theorem always_iff_guarded {I P : σ → Prop} {ok : σ → α → Prop}
    (hI : ∀ s a s', I s → step s a = some s' → I s')
    (hP : ∀ s a s', I s → P s → step s a = some s' → (P s' ↔ ok s a)) {s : σ} (hs : I s) (hs' : P s)
    (as : List α) : Always step P s as ↔ Guarded step ok s as := by
  induction as generalizing s with
  | nil => exact ⟨fun _ => trivial, fun _ => hs'⟩
  | cons a as ih =>
    constructor
    · intro ⟨_, h⟩ t ht
      have hPt : P t := (h t ht).head
      exact ⟨(hP s a t hs hs' ht).mp hPt, (ih (hI s a t hs ht) hPt).mp (h t ht)⟩
    · intro h
      refine ⟨hs', fun t ht => ?_⟩
      obtain ⟨hok, hrest⟩ := h t ht
      exact (ih (hI s a t hs ht) ((hP s a t hs hs' ht).mpr hok)).mpr hrest

/-- What holds at the start, and is kept by every step that meets `ok`, holds all
along a run whose steps meet it. -/
theorem always_of_guarded {P : σ → Prop} {ok : σ → α → Prop}
    (hP : ∀ s a s', P s → ok s a → step s a = some s' → P s') {s : σ} {as : List α} (hs : P s)
    (h : Guarded step ok s as) : Always step P s as := by
  induction as generalizing s with
  | nil => exact hs
  | cons a as ih =>
    refine ⟨hs, fun s' ha => ?_⟩
    obtain ⟨hok, hrest⟩ := h s' ha
    exact ih (hP s a s' hs hok ha) hrest

/-- A condition on the action alone. -/
theorem guarded_of_forall {ok : α → Prop} {as : List α} (h : ∀ a ∈ as, ok a) (s : σ) :
    Guarded step (fun _ a => ok a) s as := by
  induction as generalizing s with
  | nil => trivial
  | cons a as ih => exact fun s' _ => ⟨h a List.mem_cons_self, ih (fun b hb => h b (List.mem_cons_of_mem a hb)) s'⟩

/-- A run's steps can be checked one after the other. -/
instance Guarded.decidable {ok : σ → α → Prop} [∀ s a, Decidable (ok s a)] :
    ∀ s as, Decidable (Guarded step ok s as)
  | _, [] => isTrue trivial
  | s, a :: as =>
    match h : step s a with
    | none => isTrue fun s' hs => absurd (h.symm.trans hs) (by simp)
    | some s' =>
      have : Decidable (Guarded step ok s' as) := Guarded.decidable s' as
      decidable_of_iff (ok s a ∧ Guarded step ok s' as)
        ⟨fun hok t ht => Option.some.inj (h.symm.trans ht) ▸ hok, fun hok => hok s' h⟩

theorem Always.of_run {P : σ → Prop} {s t : σ} {as : List α} (h : Always step P s as)
    (hrun : run step s as = some t) : P t := by
  induction as generalizing s with
  | nil =>
    simp only [run, Option.some.injEq] at hrun
    exact hrun ▸ h
  | cons a as ih =>
    obtain ⟨s', ha, hrun⟩ := run_cons_some.mp hrun
    exact ih (h.2 s' ha) hrun

/-- **The trace rule.** What holds of the start and an empty trace, and is kept by
every step and what the step shows, holds at the end of a run of what the run
showed. -/
theorem traced_of_run {β : Type*} {obs : σ → α → σ → List β} {J : σ → List β → Prop}
    (hstep : ∀ s a s' trace, J s trace → step s a = some s' → J s' (trace ++ obs s a s')) {s t : σ} {as : List α}
    (hs : J s []) (hrun : run step s as = some t) : J t (observed step obs s as) := by
  suffices hall : ∀ trace, J s trace → J t (trace ++ observed step obs s as) by simpa using hall [] hs
  clear hs
  induction as generalizing s with
  | nil =>
    intro trace hs
    simp only [run, Option.some.injEq] at hrun
    rw [observed, List.append_nil]
    exact hrun ▸ hs
  | cons a as ih =>
    intro trace hs
    obtain ⟨s', ha, hrest⟩ := run_cons_some.mp hrun
    have hnext := ih hrest (trace ++ obs s a s') (hstep s a s' trace hs ha)
    rwa [observed, ha, Option.elim_some, ← List.append_assoc]

/-- A part of the state that grows by what the steps show, and was empty, is what
the run showed. -/
theorem history_of_run {β : Type*} {obs : σ → α → σ → List β} {history : σ → List β}
    (hstep : ∀ s a s', step s a = some s' → history s' = history s ++ obs s a s') {s t : σ} {as : List α}
    (hrun : run step s as = some t) (hs : history s = [] := by rfl) : history t = observed step obs s as := by
  refine traced_of_run (J := fun s trace => history s = trace) (fun s a s' trace h ha => ?_) hs hrun
  rw [hstep s a s' ha, h]

end PokerEngine.Transition
