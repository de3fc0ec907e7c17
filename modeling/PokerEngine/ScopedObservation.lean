/-
Scoped observations (`scoped_observation.h`) of one observable, any number of
them, constructed, observing, reset and destroyed in any order.

`RemoveObserver` erases every pointer equal to its argument, and the destructor
calls `Reset`, whose assertion wants an observation under way. So the
observable's list is right exactly as long as no two observations of one
observer overlap, and none is destroyed that does not observe
(`observers_match_iff`).
-/
import PokerEngine.Server
import PokerEngine.Transition

namespace PokerEngine

/-- `ScopedObservation`: `observer_`, which may be null, and whether
`observable_` is set. -/
structure ScopedObservation (O : Type) where
  observer : Option O
  observing : Bool
  deriving DecidableEq, Repr

namespace ScopedObservation

variable {O : Type} [DecidableEq O]

/-- `AddObserver`, on the observable's list. -/
def addObserver (observers : List O) (observer : O) : List O := observers ++ [observer]

/-- `RemoveObserver`: `std::erase`. -/
def removeObserver (observers : List O) (observer : O) : List O := observers.filter (· ≠ observer)

def construct (observer : Option O) : ScopedObservation O := ⟨observer, false⟩

/-- `Observe`, with the observable's list after the call. The assertion wants an
observer, and no observation under way. -/
def observe (x : ScopedObservation O) (observers : List O) : Except Fault (ScopedObservation O × List O) :=
  match x with
  | ⟨some observer, false⟩ => .ok (⟨some observer, true⟩, addObserver observers observer)
  | _ => .error .abort

/-- `Reset`. The assertion wants an observer and an observation under way;
without assertions the null `observable_` is dereferenced. -/
def reset (x : ScopedObservation O) (observers : List O) : Except Fault (ScopedObservation O × List O) :=
  match x with
  | ⟨some observer, true⟩ => .ok (⟨some observer, false⟩, removeObserver observers observer)
  | _ => .error .abort

/-- The destructor, with the observable's list after it. -/
def destroy (x : ScopedObservation O) (observers : List O) : Except Fault (List O) := do
  let (_, observers) ← x.reset observers
  return observers

/-- The observable's list, and the objects alive, by number. -/
structure Scene (O : Type) where
  observers : List O
  observations : Nat → Option (ScopedObservation O)
  halted : Option Fault

inductive Action (O : Type)
  | construct (i : Nat) (observer : Option O)
  | observe (i : Nat)
  | reset (i : Nat)
  | destroy (i : Nat)
  deriving DecidableEq, Repr

namespace Scene

def initial : Scene O := ⟨[], fun _ => none, none⟩

def set (s : Scene O) (i : Nat) (x : Option (ScopedObservation O)) (observers : List O) : Scene O :=
  { s with observations := Function.update s.observations i x, observers }

/-- One call on one object; none after a fault. `Observe` and `Reset` are called
only where their assertions hold. -/
def step (s : Scene O) (a : Action O) : Option (Scene O) :=
  if s.halted.isSome then none
  else
    match a with
    | .construct i observer =>
      match s.observations i with
      | none => some (s.set i (some (ScopedObservation.construct observer)) s.observers)
      | some _ => none
    | .observe i => do
      let x ← s.observations i
      let (x, observers) ← (x.observe s.observers).toOption
      return s.set i (some x) observers
    | .reset i => do
      let x ← s.observations i
      let (x, observers) ← (x.reset s.observers).toOption
      return s.set i (some x) observers
    | .destroy i => do
      let x ← s.observations i
      match x.destroy s.observers with
      | .ok observers => return s.set i none observers
      | .error f => return { s with halted := some f }

/-- Object `i` is alive and observes for `observer`. -/
def Active (s : Scene O) (i : Nat) (observer : O) : Prop := s.observations i = some ⟨some observer, true⟩

/-- An observer is in the list exactly if some observation of it is active, and
no assertion has failed. -/
structure Matches (s : Scene O) : Prop where
  listed : ∀ observer, observer ∈ s.observers ↔ ∃ i, s.Active i observer
  halted : s.halted = none

/-- Object `i` is active, and the only active one of its observer. -/
def SoleActive (s : Scene O) (i : Nat) : Prop :=
  ∃ observer, s.Active i observer ∧ ∀ j, s.Active j observer → j = i

/-- The condition on a step: what is reset or destroyed is the one active
observation of its observer. -/
def EndsSole (s : Scene O) : Action O → Prop
  | .reset i => s.SoleActive i
  | .destroy i => s.SoleActive i
  | _ => True

omit [DecidableEq O] in
theorem Matches.initial : (initial : Scene O).Matches := ⟨by simp [Scene.initial, Active], rfl⟩

/-- What a step can do. -/
inductive Step (s : Scene O) : Action O → Scene O → Prop
  | construct (i : Nat) (observer : Option O) (fresh : s.observations i = none) :
    Step s (.construct i observer) (s.set i (some ⟨observer, false⟩) s.observers)
  | observe (i : Nat) (observer : O) (idle : s.observations i = some ⟨some observer, false⟩) :
    Step s (.observe i) (s.set i (some ⟨some observer, true⟩) (addObserver s.observers observer))
  | reset (i : Nat) (observer : O) (active : s.Active i observer) :
    Step s (.reset i) (s.set i (some ⟨some observer, false⟩) (removeObserver s.observers observer))
  | destroy (i : Nat) (observer : O) (active : s.Active i observer) :
    Step s (.destroy i) (s.set i none (removeObserver s.observers observer))
  | destroyFails (i : Nat) (f : Fault) (inactive : ∀ observer, ¬ s.Active i observer) :
    Step s (.destroy i) { s with halted := some f }

theorem step_cases {s s' : Scene O} {a : Action O} (h : s.step a = some s') : s.halted = none ∧ Step s a s' := by
  unfold step at h
  cases hh : s.halted with
  | some f => simp [hh] at h
  | none =>
    refine ⟨rfl, ?_⟩
    simp only [hh, Option.isSome_none, Bool.false_eq_true, if_false] at h
    cases a with
    | construct i observer =>
      cases hi : s.observations i with
      | none =>
        simp only [hi, Option.some.injEq] at h
        exact h ▸ .construct i observer hi
      | some x => simp [hi] at h
    | observe i =>
      match hi : s.observations i with
      | none => simp [hi] at h
      | some ⟨some observer, false⟩ =>
        simp [hi, ScopedObservation.observe, Except.toOption] at h
        exact h ▸ .observe i observer hi
      | some ⟨none, _⟩ => simp [hi, ScopedObservation.observe, Except.toOption] at h
      | some ⟨some observer, true⟩ => simp [hi, ScopedObservation.observe, Except.toOption] at h
    | reset i =>
      match hi : s.observations i with
      | none => simp [hi] at h
      | some ⟨some observer, true⟩ =>
        simp [hi, ScopedObservation.reset, Except.toOption] at h
        exact h ▸ .reset i observer hi
      | some ⟨none, _⟩ => simp [hi, ScopedObservation.reset, Except.toOption] at h
      | some ⟨some observer, false⟩ => simp [hi, ScopedObservation.reset, Except.toOption] at h
    | destroy i =>
      match hi : s.observations i with
      | none => simp [hi] at h
      | some ⟨some observer, true⟩ =>
        simp [hi, ScopedObservation.destroy, ScopedObservation.reset, bind, Except.bind, pure, Except.pure] at h
        exact h ▸ .destroy i observer hi
      | some ⟨none, _⟩ =>
        simp [hi, ScopedObservation.destroy, ScopedObservation.reset, bind, Except.bind] at h
        exact h ▸ .destroyFails i _ (by simp [Active, hi])
      | some ⟨some observer, false⟩ =>
        simp [hi, ScopedObservation.destroy, ScopedObservation.reset, bind, Except.bind] at h
        exact h ▸ .destroyFails i _ (by simp [Active, hi])

omit [DecidableEq O] in
@[simp] theorem set_observers (s : Scene O) (i : Nat) (x : Option (ScopedObservation O)) (observers : List O) :
    (s.set i x observers).observers = observers := rfl

omit [DecidableEq O] in
theorem set_active {s : Scene O} {i j : Nat} {x : Option (ScopedObservation O)} {observers : List O} {observer : O} :
    (s.set i x observers).Active j observer ↔ if j = i then x = some ⟨some observer, true⟩ else s.Active j observer := by
  unfold Active set
  by_cases hj : j = i
  · subst hj
    simp
  · simp [hj]

theorem mem_removeObserver {observers : List O} {observer o : O} :
    o ∈ removeObserver observers observer ↔ o ∈ observers ∧ o ≠ observer := by
  simp [removeObserver]

omit [DecidableEq O] in
/-- An object has one observer. -/
theorem Active.unique {s : Scene O} {i : Nat} {o o' : O} (h : s.Active i o) (h' : s.Active i o') : o = o' := by
  unfold Active at h h'
  rw [h] at h'
  simpa using h'

/-- Where an active observation ends, the list is right afterwards exactly if no
other one of its observer is active. -/
theorem Matches.ended {s : Scene O} (h : s.Matches) {i : Nat} {observer : O} (hactive : s.Active i observer)
    {x : Option (ScopedObservation O)} (hx : ∀ o, x ≠ some ⟨some o, true⟩) :
    (s.set i x (removeObserver s.observers observer)).Matches ↔ s.SoleActive i := by
  constructor
  · intro h'
    refine ⟨observer, hactive, fun j hj => ?_⟩
    by_contra hne
    have hlisted := (h'.listed observer).mpr ⟨j, by simpa [set_active, hne] using hj⟩
    exact (mem_removeObserver.mp hlisted).2 rfl
  · intro ⟨o, ho, hsole⟩
    obtain rfl := hactive.unique ho
    refine ⟨fun o => ?_, h.halted⟩
    rw [set_observers, mem_removeObserver, h.listed o]
    simp only [set_active]
    constructor
    · intro ⟨⟨j, hj⟩, hne⟩
      refine ⟨j, ?_⟩
      have hji : j ≠ i := fun he => hne ((he ▸ hj).unique hactive)
      rwa [if_neg hji]
    · intro ⟨j, hj⟩
      by_cases hji : j = i
      · rw [if_pos hji] at hj
        exact absurd hj (hx o)
      · rw [if_neg hji] at hj
        exact ⟨⟨j, hj⟩, fun he => hji (hsole j (he ▸ hj))⟩

/-- One step keeps the list right exactly if it meets the condition. -/
theorem Matches.step_iff {s s' : Scene O} {a : Action O} (h : s.Matches) (hstep : s.step a = some s') :
    s'.Matches ↔ s.EndsSole a := by
  cases (step_cases hstep).2 with
  | construct i observer fresh =>
    refine iff_of_true ⟨fun o => ?_, h.halted⟩ trivial
    rw [set_observers, h.listed o]
    refine exists_congr fun j => ?_
    rw [set_active]
    by_cases hj : j = i
    · simp [hj, Active, fresh]
    · rw [if_neg hj]
  | observe i observer idle =>
    refine iff_of_true ⟨fun o => ?_, h.halted⟩ trivial
    rw [set_observers, addObserver, List.mem_append, List.mem_singleton, h.listed o]
    simp only [set_active]
    constructor
    · rintro (⟨j, hj⟩ | rfl)
      · have hji : j ≠ i := fun he => by simp [Active, he, idle] at hj
        exact ⟨j, by rwa [if_neg hji]⟩
      · exact ⟨i, by simp⟩
    · intro ⟨j, hj⟩
      by_cases hji : j = i
      · right
        simpa [hji, eq_comm] using hj
      · left
        exact ⟨j, by rwa [if_neg hji] at hj⟩
  | reset i observer active => exact h.ended active (by simp)
  | destroy i observer active => exact h.ended active (by simp)
  | destroyFails i f inactive =>
    refine iff_of_false (fun h' => ?_) fun ⟨o, ho, _⟩ => inactive o ho
    have := h'.halted
    simp at this

/-- **When the list of observers is right in every state**: when what is reset
or destroyed, each time, is the one active observation of its observer. -/
theorem observers_match_iff (as : List (Action O)) :
    Transition.Always step Matches (initial : Scene O) as ↔ Transition.Guarded step EndsSole initial as :=
  Transition.always_iff_guarded (I := fun _ => True) (fun _ _ _ _ _ => trivial)
    (fun _ _ _ _ h hstep => h.step_iff hstep) trivial .initial as

/-- An observation that was never begun is destroyed; and of two observations
of one observer the first is reset. -/
theorem observers_mismatch :
    (∃ s, Transition.run step (initial : Scene Unit) [.construct 0 (some ()), .destroy 0] = some s ∧
      s.halted = some .abort) ∧
    (∃ s, Transition.run step (initial : Scene Unit)
        [.construct 0 (some ()), .construct 1 (some ()), .observe 0, .observe 1, .reset 0] = some s ∧
      s.Active 1 () ∧ () ∉ s.observers) :=
  ⟨⟨_, rfl, rfl⟩, ⟨_, rfl, rfl, by decide⟩⟩

/-! ## One observation for each observer -/

/-- Object `i` is alive and was made for `observer`. -/
def MadeFor (s : Scene O) (i : Nat) (observer : O) : Prop := ∃ b, s.observations i = some ⟨some observer, b⟩

/-- An observation is made for an observer that has none, and destroyed while it
is active: how the classes that own one use it. -/
def OneEach (s : Scene O) : Action O → Prop
  | .construct _ observer => ∀ j, ∀ o ∈ observer, ¬ s.MadeFor j o
  | .destroy i => ∃ o, s.Active i o
  | _ => True

/-- No two objects alive were made for one observer. -/
def Distinct (s : Scene O) : Prop := ∀ i j o, s.MadeFor i o → s.MadeFor j o → i = j

omit [DecidableEq O] in
theorem Active.madeFor {s : Scene O} {i : Nat} {o : O} (h : s.Active i o) : s.MadeFor i o := ⟨true, h⟩

omit [DecidableEq O] in
theorem madeFor_set {s : Scene O} {i j : Nat} {x : Option (ScopedObservation O)} {observers : List O} {o : O} :
    (s.set i x observers).MadeFor j o ↔ if j = i then ∃ b, x = some ⟨some o, b⟩ else s.MadeFor j o := by
  unfold MadeFor set
  by_cases hj : j = i
  · subst hj
    simp
  · simp [hj]

omit [DecidableEq O] in
/-- An object is replaced by one for the same observer, or for none alive. -/
theorem Distinct.set {s : Scene O} (h : s.Distinct) {i : Nat} {x : Option (ScopedObservation O)} {observers : List O}
    (hx : ∀ o b, x = some ⟨some o, b⟩ → ∀ j, s.MadeFor j o → j = i) : (s.set i x observers).Distinct := by
  intro j k o hj hk
  rw [madeFor_set] at hj hk
  split_ifs at hj hk with hji hki hki
  · exact hji.trans hki.symm
  · obtain ⟨b, hb⟩ := hj
    exact hji.trans (hx o b hb k hk).symm
  · obtain ⟨b, hb⟩ := hk
    exact (hx o b hb j hj).trans hki.symm
  · exact h j k o hj hk

theorem Distinct.step {s s' : Scene O} {a : Action O} (h : s.Distinct) (hok : s.OneEach a)
    (hstep : s.step a = some s') : s'.Distinct := by
  cases (step_cases hstep).2 with
  | construct i observer fresh =>
    refine h.set fun o b hx j hj => absurd hj (hok j o ?_)
    simp only [Option.some.injEq, ScopedObservation.mk.injEq] at hx
    exact hx.1
  | observe i observer idle =>
    refine h.set fun o b hx j hj => h j i o hj ⟨false, ?_⟩
    simp only [Option.some.injEq, ScopedObservation.mk.injEq] at hx
    rw [idle, hx.1]
  | reset i observer active =>
    refine h.set fun o b hx j hj => h j i o hj ⟨true, ?_⟩
    simp only [Option.some.injEq, ScopedObservation.mk.injEq] at hx
    rw [← hx.1]
    exact active
  | destroy i observer active => exact h.set (by simp)
  | destroyFails => exact h

theorem OneEach.endsSole {s s' : Scene O} {a : Action O} (hok : s.OneEach a) (hd : s.Distinct)
    (hstep : s.step a = some s') : s.EndsSole a := by
  cases (step_cases hstep).2 with
  | construct => trivial
  | observe => trivial
  | reset i observer active => exact ⟨observer, active, fun j hj => hd j i observer hj.madeFor active.madeFor⟩
  | destroy i observer active => exact ⟨observer, active, fun j hj => hd j i observer hj.madeFor active.madeFor⟩
  | destroyFails i f inactive =>
    obtain ⟨o, ho⟩ := hok
    exact absurd ho (inactive o)

/-- **One observation for each observer.** In a run in which observations are
made for observers that have none, and destroyed while active, the list is
right in every state. -/
theorem observers_match_of_oneEach {as : List (Action O)}
    (h : Transition.Guarded step OneEach (initial : Scene O) as) :
    Transition.Always step Matches (initial : Scene O) as := by
  have hdistinct : (initial : Scene O).Distinct := fun i j o hi => by simp [MadeFor, initial] at hi
  have hall : Transition.Always step (fun s => s.Matches ∧ s.Distinct) (initial : Scene O) as :=
    Transition.always_of_guarded
      (fun s a s' ⟨hm, hd⟩ hok hstep => ⟨(hm.step_iff hstep).mpr (hok.endsSole hd hstep), hd.step hok hstep⟩)
      ⟨.initial, hdistinct⟩ h
  exact hall.mono fun _ h => h.1

/-- The constructors of `os`, one after the other: each makes its observation,
numbered from `k` on, and observes. -/
def observeAll : Nat → List O → List (Action O)
  | _, [] => []
  | k, o :: os => .construct k (some o) :: .observe k :: observeAll (k + 1) os

/-- The list holds the objects in the order of their constructors. -/
theorem run_observeAll (os : List O) {k : Nat} {s : Scene O} (hhalted : s.halted = none)
    (hfresh : ∀ j, k ≤ j → s.observations j = none) :
    (Transition.run step s (observeAll k os)).map (·.observers) = some (s.observers ++ os) := by
  induction os generalizing k s with
  | nil => simp [observeAll, Transition.run]
  | cons o os ih =>
    have hconstruct : s.step (.construct k (some o)) = some (s.set k (some ⟨some o, false⟩) s.observers) := by
      simp [step, hhalted, hfresh k (Nat.le_refl k), ScopedObservation.construct]
    have hobserve : (s.set k (some ⟨some o, false⟩) s.observers).step (.observe k) =
        some (s.set k (some ⟨some o, true⟩) (addObserver s.observers o)) := by
      simp [step, set, hhalted, ScopedObservation.observe, Except.toOption]
    have hrest := ih (k := k + 1) (s := s.set k (some ⟨some o, true⟩) (addObserver s.observers o)) hhalted
      fun j hj => by simpa [set, Nat.ne_of_gt hj] using hfresh j (Nat.le_of_succ_le hj)
    simpa [observeAll, Transition.run, hconstruct, hobserve, addObserver] using hrest

/-- The two lists that `Initialize` leaves are those of the constructors' runs. -/
theorem run_initialize :
    (Transition.run step initial (observeAll 0 initializeObservers.serverManager)).map (·.observers) =
        some initializeObservers.serverManager ∧
      (Transition.run step initial (observeAll 0 initializeObservers.closureHandler)).map (·.observers) =
        some initializeObservers.closureHandler :=
  ⟨run_observeAll _ rfl fun _ _ => rfl, run_observeAll _ rfl fun _ _ => rfl⟩

end Scene

end ScopedObservation

end PokerEngine
