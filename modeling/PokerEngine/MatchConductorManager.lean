/-
The manager of the games (`match_conductor_manager.h`,
`match_conductor_manager.cc`): `CreateMatchConductor` cleans up the finished
games, makes a new one and starts its thread; `End` forces the games to finish.

The clean-up is `std::erase_if` on the vector of (conductor, thread) pairs, in
the steps the library takes: an element that stays is move-assigned over an
earlier slot, its conductor first and its thread second, and the tail is
destroyed, of each pair the thread first. Assigning over a conductor deletes it;
assigning over a thread, or destroying it, waits for it to return.
-/
import Mathlib.Logic.Function.Basic
import PokerEngine.MatchConductor

namespace PokerEngine

/-- The number of a game, counted from the first one made. -/
abbrev GameId := Nat

/-- A pair of `match_conductors_`; `none` is a null pointer, or no thread. -/
structure Slot where
  conductor : Option GameId
  thread : Option GameId
  deriving DecidableEq, Repr

/-- Where `std::erase_if` is. The slots before `r` are kept, and `i` or `j` is
the next one to look at. -/
inductive ErasePc
  | find (i : Nat)
  | scan (r i : Nat)
  | moveConductor (r i : Nat)
  | moveThread (r i : Nat)
  | joinTail (r j : Nat)
  | deleteTail (r j : Nat)
  deriving DecidableEq, Repr

/-- Where the caller of `CreateMatchConductor` is in it; `ps` is its argument. -/
inductive CreatePc
  | idle
  | testFinish (ps : List (Option ConnId))
  | lockCleanUp (ps : List (Option ConnId))
  | cleanUp (ps : List (Option ConnId)) (e : ErasePc)
  | unlockCleanUp (ps : List (Option ConnId))
  | construct (ps : List (Option ConnId))
  | start (g : GameId)
  | lockRegister (g : GameId)
  | register (g : GameId)
  deriving DecidableEq, Repr

/-- Where the caller of `End` is in it. -/
inductive EndPc
  | idle
  | setFlag
  | lock
  | force (i : Nat)
  | unlock
  | done
  deriving DecidableEq, Repr

/-- The two that take `conductors_mutex_`. -/
inductive Holder
  | creator
  | ender
  deriving DecidableEq, Repr

/-- `MatchConductorManager`, with the conductors by game, dead ones included,
and the number of games made. -/
structure MatchConductorManager where
  finishRequested : Bool
  conductorsMutex : Option Holder
  matchConductors : List Slot
  conductors : GameId → MatchConductor
  made : Nat
  create : CreatePc
  finish : EndPc

namespace MatchConductorManager

/-- A conductor not yet made. -/
def unmade : MatchConductor :=
  { players := [], stop := false, finishReason := .normal, pc := .unstarted, destroyed := false, sent := [] }

def initial : MatchConductorManager :=
  { finishRequested := false, conductorsMutex := none, matchConductors := [], conductors := fun _ => unmade,
    made := 0, create := .idle, finish := .idle }

def setConductor (m : MatchConductorManager) (g : GameId) (c : MatchConductor) : MatchConductorManager :=
  { m with conductors := Function.update m.conductors g c }

/-- `delete` on what a `unique_ptr` holds. -/
def delete (m : MatchConductorManager) : Option GameId → MatchConductorManager
  | none => m
  | some g => m.setConductor g (m.conductors g).destroy

/-- Whether `join` on a thread comes back. -/
def joined (m : MatchConductorManager) : Option GameId → Bool
  | none => true
  | some g => (m.conductors g).pc = .returned

def setSlot (m : MatchConductorManager) (i : Nat) (slot : Slot) : MatchConductorManager :=
  { m with matchConductors := m.matchConductors.set i slot }

/-- The predicate of the clean-up. -/
def removable (m : MatchConductorManager) (slot : Slot) : Except Fault Bool :=
  match slot.conductor with
  | none => .error .nullDereference
  | some g => .ok ((m.conductors g).hasFinished && slot.thread.isSome)

/-- One step of the clean-up; `none` while it waits for a thread. -/
def eraseStep (m : MatchConductorManager) (ps : List (Option ConnId)) :
    ErasePc → Option (Except Fault MatchConductorManager)
  | .find i =>
    match m.matchConductors[i]? with
    | none => some (.ok { m with create := .unlockCleanUp ps })
    | some slot => some do
      let remove ← m.removable slot
      return { m with create := .cleanUp ps (if remove then .scan i (i + 1) else .find (i + 1)) }
  | .scan r i =>
    match m.matchConductors[i]? with
    | none => some (.ok { m with create := .cleanUp ps (.joinTail r r) })
    | some slot => some do
      let remove ← m.removable slot
      return { m with create := .cleanUp ps (if remove then .scan r (i + 1) else .moveConductor r i) }
  | .moveConductor r i =>
    match m.matchConductors[r]?, m.matchConductors[i]? with
    | some target, some source =>
      let m := m.delete target.conductor
      let m := m.setSlot r { target with conductor := source.conductor }
      let m := m.setSlot i { source with conductor := none }
      some (.ok { m with create := .cleanUp ps (.moveThread r i) })
    | _, _ => some (.error .pastTheEnd)
  | .moveThread r i =>
    match m.matchConductors[r]?, m.matchConductors[i]? with
    | some target, some source =>
      if m.joined target.thread then
        let m := m.setSlot r { target with thread := source.thread }
        let m := m.setSlot i { source with thread := none }
        some (.ok { m with create := .cleanUp ps (.scan (r + 1) (i + 1)) })
      else none
    | _, _ => some (.error .pastTheEnd)
  | .joinTail r j =>
    match m.matchConductors[j]? with
    | none =>
      some (.ok { m with matchConductors := m.matchConductors.take r, create := .unlockCleanUp ps })
    | some slot =>
      if m.joined slot.thread then some (.ok { m with create := .cleanUp ps (.deleteTail r j) }) else none
  | .deleteTail r j =>
    match m.matchConductors[j]? with
    | none => some (.error .pastTheEnd)
    | some slot =>
      let m := (m.delete slot.conductor).setSlot j ⟨none, none⟩
      some (.ok { m with create := .cleanUp ps (.joinTail r (j + 1)) })

/-- `lock` on `conductors_mutex_`. -/
def acquire (m : MatchConductorManager) (h : Holder) : Option MatchConductorManager :=
  if m.conductorsMutex = none then some { m with conductorsMutex := some h } else none

def release (m : MatchConductorManager) : MatchConductorManager := { m with conductorsMutex := none }

/-- One step of `CreateMatchConductor`; `none` while it waits, or is not
called. -/
def createStep (m : MatchConductorManager) : Option (Except Fault MatchConductorManager) :=
  match m.create with
  | .idle => none
  | .testFinish ps => some (.ok { m with create := if m.finishRequested then .idle else .lockCleanUp ps })
  | .lockCleanUp ps => do
    let m ← m.acquire .creator
    return .ok { m with create := .cleanUp ps (.find 0) }
  | .cleanUp ps e => m.eraseStep ps e
  | .unlockCleanUp ps => some (.ok { m.release with create := .construct ps })
  | .construct ps => some do
    let conductor ← MatchConductor.construct ps
    let g := m.made
    return { m.setConductor g conductor with made := g + 1, create := .start g }
  | .start g =>
    some (.ok { m.setConductor g ((m.conductors g).goto .head) with create := .lockRegister g })
  | .lockRegister g => do
    let m ← m.acquire .creator
    return .ok { m with create := .register g }
  | .register g =>
    some (.ok { m.release with
      matchConductors := m.matchConductors ++ [⟨some g, some g⟩]
      create := .idle })

/-- One step of `End`; `none` while it waits, or is not called. -/
def endStep (m : MatchConductorManager) : Option (Except Fault MatchConductorManager) :=
  match m.finish with
  | .idle => none
  | .setFlag => some (.ok { m with finishRequested := true, finish := .lock })
  | .lock => do
    let m ← m.acquire .ender
    return .ok { m with finish := .force 0 }
  | .force i =>
    match m.matchConductors[i]? with
    | none => some (.ok { m with finish := .unlock })
    | some slot =>
      match slot.conductor with
      | none => some (.error .nullDereference)
      | some g =>
        some (.ok { m.setConductor g (m.conductors g).forceFinish with finish := .force (i + 1) })
  | .unlock => some (.ok { m.release with finish := .done })
  | .done => none

/-- One step of a game's thread. A conductor that was deleted under it is used
all the same. -/
def gameStep (closed alive : ConnId → Bool) (m : MatchConductorManager) (g : GameId) :
    Option (Except Fault (MatchConductorManager × MatchConductor.Effect)) := do
  let (conductor, effect) ← (m.conductors g).step closed alive
  return if (m.conductors g).destroyed then .error .useAfterFree
    else
      match effect with
      | .fault f => .error f
      | effect => .ok (m.setConductor g conductor, effect)

/-- A game that steps is alive and is given its conductor's next state. -/
theorem gameStep_ok {closed alive : ConnId → Bool} {m m' : MatchConductorManager} {g : GameId}
    {e : MatchConductor.Effect} (hstep : m.gameStep closed alive g = some (.ok (m', e))) :
    ∃ c, (m.conductors g).step closed alive = some (c, e) ∧ (m.conductors g).destroyed = false ∧
      (∀ f, e ≠ .fault f) ∧ m' = m.setConductor g c := by
  unfold gameStep at hstep
  cases hs : (m.conductors g).step closed alive with
  | none => simp [hs] at hstep
  | some p =>
    obtain ⟨c, e'⟩ := p
    cases hd : (m.conductors g).destroyed with
    | true => simp [hs, hd] at hstep
    | false =>
      cases e' with
      | fault f => simp [hs, hd] at hstep
      | silent =>
        simp only [hs, hd, Option.bind_eq_bind, Option.bind_some, Bool.false_eq_true, if_false, pure,
          Option.some.injEq, Except.ok.injEq, Prod.mk.injEq] at hstep
        obtain ⟨rfl, rfl⟩ := hstep
        exact ⟨c, rfl, rfl, by simp, rfl⟩
      | lockLobby =>
        simp only [hs, hd, Option.bind_eq_bind, Option.bind_some, Bool.false_eq_true, if_false, pure,
          Option.some.injEq, Except.ok.injEq, Prod.mk.injEq] at hstep
        obtain ⟨rfl, rfl⟩ := hstep
        exact ⟨c, rfl, rfl, by simp, rfl⟩
      | push value =>
        simp only [hs, hd, Option.bind_eq_bind, Option.bind_some, Bool.false_eq_true, if_false, pure,
          Option.some.injEq, Except.ok.injEq, Prod.mk.injEq] at hstep
        obtain ⟨rfl, rfl⟩ := hstep
        exact ⟨c, rfl, rfl, by simp, rfl⟩

/-! ## The steps, case by case

What a step that is taken finds and what it leaves behind. -/

/-- The steps of `std::erase_if`. -/
inductive EraseStep (m : MatchConductorManager) (ps : List (Option ConnId)) : ErasePc → MatchConductorManager → Prop
  | found (i : Nat) (past : m.matchConductors[i]? = none) :
    EraseStep m ps (.find i) { m with create := .unlockCleanUp ps }
  | find (i : Nat) (slot : Slot) (remove : Bool) (next : m.matchConductors[i]? = some slot)
      (answer : m.removable slot = .ok remove) :
    EraseStep m ps (.find i) { m with create := .cleanUp ps (if remove then .scan i (i + 1) else .find (i + 1)) }
  | scanned (r i : Nat) (past : m.matchConductors[i]? = none) :
    EraseStep m ps (.scan r i) { m with create := .cleanUp ps (.joinTail r r) }
  | scan (r i : Nat) (slot : Slot) (remove : Bool) (next : m.matchConductors[i]? = some slot)
      (answer : m.removable slot = .ok remove) :
    EraseStep m ps (.scan r i)
      { m with create := .cleanUp ps (if remove then .scan r (i + 1) else .moveConductor r i) }
  | moveConductor (r i : Nat) (target source : Slot) (earlier : m.matchConductors[r]? = some target)
      (next : m.matchConductors[i]? = some source) :
    EraseStep m ps (.moveConductor r i)
      { ((m.delete target.conductor).setSlot r { target with conductor := source.conductor }).setSlot i
          { source with conductor := none } with create := .cleanUp ps (.moveThread r i) }
  | moveThread (r i : Nat) (target source : Slot) (earlier : m.matchConductors[r]? = some target)
      (next : m.matchConductors[i]? = some source) (joined : m.joined target.thread = true) :
    EraseStep m ps (.moveThread r i)
      { (m.setSlot r { target with thread := source.thread }).setSlot i { source with thread := none } with
        create := .cleanUp ps (.scan (r + 1) (i + 1)) }
  | erased (r j : Nat) (past : m.matchConductors[j]? = none) :
    EraseStep m ps (.joinTail r j)
      { m with matchConductors := m.matchConductors.take r, create := .unlockCleanUp ps }
  | joinTail (r j : Nat) (slot : Slot) (next : m.matchConductors[j]? = some slot)
      (joined : m.joined slot.thread = true) :
    EraseStep m ps (.joinTail r j) { m with create := .cleanUp ps (.deleteTail r j) }
  | deleteTail (r j : Nat) (slot : Slot) (next : m.matchConductors[j]? = some slot) :
    EraseStep m ps (.deleteTail r j)
      { (m.delete slot.conductor).setSlot j ⟨none, none⟩ with create := .cleanUp ps (.joinTail r (j + 1)) }

theorem eraseStep_cases {m m' : MatchConductorManager} {ps : List (Option ConnId)} {e : ErasePc}
    (hstep : m.eraseStep ps e = some (.ok m')) : EraseStep m ps e m' := by
  cases e with
  | find i =>
    cases hslot : m.matchConductors[i]? with
    | none =>
      simp only [eraseStep, hslot, Option.some.injEq, Except.ok.injEq] at hstep
      exact hstep ▸ .found i hslot
    | some slot =>
      cases hr : m.removable slot with
      | error f => simp [eraseStep, hslot, hr, bind, Except.bind] at hstep
      | ok remove =>
        simp only [eraseStep, hslot, hr, bind, Except.bind, pure, Except.pure, Option.some.injEq,
          Except.ok.injEq] at hstep
        exact hstep ▸ .find i slot remove hslot hr
  | scan r i =>
    cases hslot : m.matchConductors[i]? with
    | none =>
      simp only [eraseStep, hslot, Option.some.injEq, Except.ok.injEq] at hstep
      exact hstep ▸ .scanned r i hslot
    | some slot =>
      cases hr : m.removable slot with
      | error f => simp [eraseStep, hslot, hr, bind, Except.bind] at hstep
      | ok remove =>
        simp only [eraseStep, hslot, hr, bind, Except.bind, pure, Except.pure, Option.some.injEq,
          Except.ok.injEq] at hstep
        exact hstep ▸ .scan r i slot remove hslot hr
  | moveConductor r i =>
    simp only [eraseStep] at hstep
    split at hstep
    · next target source hr hi =>
      simp only [Option.some.injEq, Except.ok.injEq] at hstep
      exact hstep ▸ .moveConductor r i target source hr hi
    · simp at hstep
  | moveThread r i =>
    simp only [eraseStep] at hstep
    split at hstep
    · next target source hr hi =>
      split at hstep
      · next hjoined =>
        simp only [Option.some.injEq, Except.ok.injEq] at hstep
        exact hstep ▸ .moveThread r i target source hr hi hjoined
      · simp at hstep
    · simp at hstep
  | joinTail r j =>
    simp only [eraseStep] at hstep
    split at hstep
    · next hslot =>
      simp only [Option.some.injEq, Except.ok.injEq] at hstep
      exact hstep ▸ .erased r j hslot
    · next slot hslot =>
      split at hstep
      · next hjoined =>
        simp only [Option.some.injEq, Except.ok.injEq] at hstep
        exact hstep ▸ .joinTail r j slot hslot hjoined
      · simp at hstep
  | deleteTail r j =>
    simp only [eraseStep] at hstep
    split at hstep
    · simp at hstep
    · next slot hslot =>
      simp only [Option.some.injEq, Except.ok.injEq] at hstep
      exact hstep ▸ .deleteTail r j slot hslot

theorem acquire_eq_some {m m' : MatchConductorManager} {holder : Holder} :
    m.acquire holder = some m' ↔ m.conductorsMutex = none ∧ m' = { m with conductorsMutex := some holder } := by
  unfold acquire
  split
  · next hfree => simp [hfree, eq_comm]
  · next hheld => simp [hheld]

/-- The steps of `CreateMatchConductor`. -/
inductive CreateStep (m : MatchConductorManager) : MatchConductorManager → Prop
  | refuse (ps : List (Option ConnId)) (place : m.create = .testFinish ps) (requested : m.finishRequested = true) :
    CreateStep m { m with create := .idle }
  | accept (ps : List (Option ConnId)) (place : m.create = .testFinish ps)
      (accepting : m.finishRequested = false) :
    CreateStep m { m with create := .lockCleanUp ps }
  | lockCleanUp (ps : List (Option ConnId)) (place : m.create = .lockCleanUp ps)
      (free : m.conductorsMutex = none) :
    CreateStep m { m with conductorsMutex := some .creator, create := .cleanUp ps (.find 0) }
  | cleanUp (ps : List (Option ConnId)) (e : ErasePc) (m' : MatchConductorManager)
      (place : m.create = .cleanUp ps e) (erases : m.eraseStep ps e = some (.ok m')) :
    CreateStep m m'
  | unlockCleanUp (ps : List (Option ConnId)) (place : m.create = .unlockCleanUp ps) :
    CreateStep m { m.release with create := .construct ps }
  | construct (ps : List (Option ConnId)) (c : MatchConductor) (place : m.create = .construct ps)
      (constructs : MatchConductor.construct ps = .ok c) :
    CreateStep m { m.setConductor m.made c with made := m.made + 1, create := .start m.made }
  | start (g : GameId) (place : m.create = .start g) :
    CreateStep m { m.setConductor g ((m.conductors g).goto .head) with create := .lockRegister g }
  | lockRegister (g : GameId) (place : m.create = .lockRegister g) (free : m.conductorsMutex = none) :
    CreateStep m { m with conductorsMutex := some .creator, create := .register g }
  | register (g : GameId) (place : m.create = .register g) :
    CreateStep m { m.release with
      matchConductors := m.matchConductors ++ [⟨some g, some g⟩]
      create := .idle }

theorem createStep_cases {m m' : MatchConductorManager} (hstep : m.createStep = some (.ok m')) :
    CreateStep m m' := by
  cases hcreate : m.create with
  | idle => simp [createStep, hcreate] at hstep
  | testFinish ps =>
    simp only [createStep, hcreate, Option.some.injEq, Except.ok.injEq] at hstep
    by_cases hf : m.finishRequested = true
    · rw [if_pos hf] at hstep
      exact hstep ▸ .refuse ps hcreate hf
    · rw [if_neg hf] at hstep
      exact hstep ▸ .accept ps hcreate (Bool.eq_false_iff.mpr hf)
  | lockCleanUp ps =>
    simp only [createStep, hcreate, Option.bind_eq_bind, Option.bind_eq_some_iff, acquire_eq_some, pure,
      Option.some.injEq, Except.ok.injEq] at hstep
    obtain ⟨_, ⟨hfree, rfl⟩, rfl⟩ := hstep
    exact .lockCleanUp ps hcreate hfree
  | cleanUp ps e =>
    simp only [createStep, hcreate] at hstep
    exact .cleanUp ps e m' hcreate hstep
  | unlockCleanUp ps =>
    simp only [createStep, hcreate, Option.some.injEq, Except.ok.injEq] at hstep
    exact hstep ▸ .unlockCleanUp ps hcreate
  | construct ps =>
    cases hc : MatchConductor.construct ps with
    | error f => simp [createStep, hcreate, hc, bind, Except.bind] at hstep
    | ok c =>
      simp only [createStep, hcreate, hc, bind, Except.bind, pure, Except.pure, Option.some.injEq,
        Except.ok.injEq] at hstep
      exact hstep ▸ .construct ps c hcreate hc
  | start g =>
    simp only [createStep, hcreate, Option.some.injEq, Except.ok.injEq] at hstep
    exact hstep ▸ .start g hcreate
  | lockRegister g =>
    simp only [createStep, hcreate, Option.bind_eq_bind, Option.bind_eq_some_iff, acquire_eq_some, pure,
      Option.some.injEq, Except.ok.injEq] at hstep
    obtain ⟨_, ⟨hfree, rfl⟩, rfl⟩ := hstep
    exact .lockRegister g hcreate hfree
  | register g =>
    simp only [createStep, hcreate, Option.some.injEq, Except.ok.injEq] at hstep
    exact hstep ▸ .register g hcreate

/-- The steps of `End`. -/
inductive EndStep (m : MatchConductorManager) : MatchConductorManager → Prop
  | setFlag (place : m.finish = .setFlag) : EndStep m { m with finishRequested := true, finish := .lock }
  | lock (place : m.finish = .lock) (free : m.conductorsMutex = none) :
    EndStep m { m with conductorsMutex := some .ender, finish := .force 0 }
  | forced (i : Nat) (place : m.finish = .force i) (past : m.matchConductors[i]? = none) :
    EndStep m { m with finish := .unlock }
  | force (i : Nat) (slot : Slot) (g : GameId) (place : m.finish = .force i)
      (next : m.matchConductors[i]? = some slot) (conductor : slot.conductor = some g) :
    EndStep m { m.setConductor g (m.conductors g).forceFinish with finish := .force (i + 1) }
  | unlock (place : m.finish = .unlock) : EndStep m { m.release with finish := .done }

theorem endStep_cases {m m' : MatchConductorManager} (hstep : m.endStep = some (.ok m')) : EndStep m m' := by
  cases hf : m.finish with
  | idle => simp [endStep, hf] at hstep
  | done => simp [endStep, hf] at hstep
  | setFlag =>
    simp only [endStep, hf, Option.some.injEq, Except.ok.injEq] at hstep
    exact hstep ▸ .setFlag hf
  | lock =>
    simp only [endStep, hf, Option.bind_eq_bind, Option.bind_eq_some_iff, acquire_eq_some, pure,
      Option.some.injEq, Except.ok.injEq] at hstep
    obtain ⟨_, ⟨hfree, rfl⟩, rfl⟩ := hstep
    exact .lock hf hfree
  | unlock =>
    simp only [endStep, hf, Option.some.injEq, Except.ok.injEq] at hstep
    exact hstep ▸ .unlock hf
  | force i =>
    simp only [endStep, hf] at hstep
    split at hstep
    · next hslot =>
      simp only [Option.some.injEq, Except.ok.injEq] at hstep
      exact hstep ▸ .forced i hf hslot
    · next slot hslot =>
      split at hstep
      · simp at hstep
      · next g hg =>
        simp only [Option.some.injEq, Except.ok.injEq] at hstep
        exact hstep ▸ .force i slot g hf hslot hg

/-- What the manager goes through: calls of `CreateMatchConductor`, one after
the other, one call of `End`, their steps, and steps of the games, with what
these find in the connections. -/
inductive Action
  | call (players : List (Option ConnId))
  | create
  | callEnd
  | finish
  | game (g : GameId) (closed alive : ConnId → Bool)

/-- The manager on its own, among games that find anything. A step that leaves
defined behaviour is not taken. -/
def step (m : MatchConductorManager) : Action → Option MatchConductorManager
  | .call players => if m.create = .idle then some { m with create := .testFinish players } else none
  | .create => m.createStep.bind Except.toOption
  | .callEnd => if m.finish = .idle then some { m with finish := .setFlag } else none
  | .finish => m.endStep.bind Except.toOption
  | .game g closed alive => (m.gameStep closed alive g).bind fun r => r.toOption.map Prod.fst

end MatchConductorManager

end PokerEngine
