/-
A thread that cannot take a step waits: for the holder of a mutex it asks for,
or for a thread it joins, as `WaitsFor` says, unless it has nothing to do. With
no cycle of waits (`Locks`) somebody can always go on.
-/
import PokerEngine.Locks

namespace PokerEngine

namespace MatchConductorManager

/-- The games whose threads the manager keeps, or is about to, were started. -/
structure Started (m : MatchConductorManager) : Prop where
  threads : ∀ slot ∈ m.matchConductors, ∀ g, slot.thread = some g → (m.conductors g).pc ≠ .unstarted
  pending : ∀ g, m.create = .lockRegister g ∨ m.create = .register g → (m.conductors g).pc ≠ .unstarted

theorem mem_setSlot {m : MatchConductorManager} {i : Nat} {slot slot' : Slot}
    (h : slot' ∈ (m.setSlot i slot).matchConductors) : slot' ∈ m.matchConductors ∨ slot' = slot :=
  List.mem_or_eq_of_mem_set h

/-- The clean-up brings in no thread. -/
theorem eraseStep_threads {m m' : MatchConductorManager} {ps : List (Option ConnId)} {e : ErasePc}
    (hstep : m.eraseStep ps e = some (.ok m')) :
    ∀ slot ∈ m'.matchConductors, ∀ g, slot.thread = some g → ∃ slot ∈ m.matchConductors, slot.thread = some g := by
  have hdelete : ∀ o, (m.delete o).matchConductors = m.matchConductors := fun o => by cases o <;> rfl
  intro slot hslot g hg
  cases eraseStep_cases hstep with
  | moveConductor r i target source hr hi =>
    rcases mem_setSlot hslot with hslot | rfl
    · rcases mem_setSlot hslot with hslot | rfl
      · exact ⟨slot, hdelete _ ▸ hslot, hg⟩
      · exact ⟨target, List.mem_of_getElem? hr, hg⟩
    · exact ⟨source, List.mem_of_getElem? hi, hg⟩
  | moveThread r i target source hr hi =>
    rcases mem_setSlot hslot with hslot | rfl
    · rcases mem_setSlot hslot with hslot | rfl
      · exact ⟨slot, hslot, hg⟩
      · exact ⟨source, List.mem_of_getElem? hi, hg⟩
    · cases hg
  | erased r j => exact ⟨slot, List.mem_of_mem_take hslot, hg⟩
  | deleteTail r j old =>
    rcases mem_setSlot hslot with hslot | rfl
    · exact ⟨slot, hdelete _ ▸ hslot, hg⟩
    · cases hg
  | _ => exact ⟨slot, hslot, hg⟩

/-- Where the threads in the vector come from. -/
theorem createStep_threads {m m' : MatchConductorManager} (hstep : m.createStep = some (.ok m')) :
    ∀ slot ∈ m'.matchConductors, ∀ g, slot.thread = some g →
      (∃ slot ∈ m.matchConductors, slot.thread = some g) ∨ m.create = .register g := by
  intro slot hslot g hg
  cases createStep_cases hstep with
  | cleanUp ps e _ _ herase => exact .inl (eraseStep_threads herase slot hslot g hg)
  | register g' hcreate =>
    rcases List.mem_append.mp hslot with hslot | hslot
    · exact .inl ⟨slot, hslot, hg⟩
    · obtain rfl := List.mem_singleton.mp hslot
      obtain rfl : g' = g := Option.some.inj hg
      exact .inr hcreate
  | _ => exact .inl ⟨slot, hslot, hg⟩

/-- Where the caller of `CreateMatchConductor` comes from at its last places. -/
theorem createStep_registering {m m' : MatchConductorManager} {g : GameId}
    (hstep : m.createStep = some (.ok m')) (h : m'.create = .lockRegister g ∨ m'.create = .register g) :
    m.create = .start g ∨ m.create = .lockRegister g := by
  cases createStep_cases hstep with
  | start g' hcreate =>
    rcases h with h | h <;> cases h
    exact .inl hcreate
  | lockRegister g' hcreate =>
    rcases h with h | h <;> cases h
    exact .inr hcreate
  | cleanUp ps e _ _ herase => cases eraseStep_cases herase <;> rcases h with h | h <;> cases h
  | _ => rcases h with h | h <;> cases h

/-- A started game stays started. -/
theorem Created.stays {m m' : MatchConductorManager} (h : m.Inv) (hcreated : Created m m') {g : GameId}
    (hg : (m.conductors g).pc ≠ .unstarted) : (m'.conductors g).pc ≠ .unstarted := by
  cases hcreated with
  | moved conductors => rwa [conductors]
  | refused _ conductors => rwa [conductors]
  | deleted g' _ _ conductors => rwa [conductors, (delete_advances m (some g') g).2]
  | made c construct conductors =>
    have hne : g ≠ m.made := fun he => hg (by rw [h.unmade g (Nat.le_of_eq he.symm)]; rfl)
    rwa [conductors, Function.update_of_ne hne]
  | started g' create conductors =>
    rw [conductors]
    by_cases he : g = g'
    · subst he
      simp [MatchConductor.goto]
    · rwa [Function.update_of_ne he]

theorem Started.create {m m' : MatchConductorManager} (hinv : m.Inv) (h : m.Started)
    (hstep : m.createStep = some (.ok m')) : m'.Started := by
  have hstarted : ∀ g, (m.conductors g).pc ≠ .unstarted → (m'.conductors g).pc ≠ .unstarted := fun _ hg =>
    (createStep_spec hinv hstep).2.stays hinv hg
  refine ⟨fun slot hslot g hg => ?_, fun g hg => ?_⟩
  · rcases createStep_threads hstep slot hslot g hg with ⟨slot', hslot', hg'⟩ | hregister
    · exact hstarted g (h.threads slot' hslot' g hg')
    · exact hstarted g (h.pending g (.inr hregister))
  · rcases createStep_registering hstep hg with hstart | hlock
    · simp only [createStep, hstart, Option.some.injEq, Except.ok.injEq] at hstep
      simp [← hstep, setConductor, MatchConductor.goto]
    · exact hstarted g (h.pending g (.inl hlock))

/-- The other steps: the vector stands still, and started games stay started. -/
theorem Started.advance {m m' : MatchConductorManager} (h : m.Started)
    (hslots : m'.matchConductors = m.matchConductors) (hcreate : m'.create = m.create)
    (hpc : ∀ g, (m.conductors g).pc ≠ .unstarted → (m'.conductors g).pc ≠ .unstarted) : m'.Started :=
  ⟨fun slot hslot g hg => hpc g (h.threads slot (hslots ▸ hslot) g hg), fun g hg => hpc g (h.pending g (hcreate ▸ hg))⟩

end MatchConductorManager

namespace Server

/-- What is joined was started, and `MatchConductorManager::End` is under way
while the main thread is in it. -/
structure Underway (s : Server) : Prop where
  started : s.manager.Started
  ending : ∀ rest, s.main = .managerEnd rest → s.manager.finish ≠ .idle

theorem Underway.initial : initial.Underway where
  started := ⟨fun _ h => absurd h List.not_mem_nil, fun _ h => by rcases h with h | h <;> cases h⟩
  ending _ h := nomatch h

theorem Underway.same {s s' : Server} (h : s.Underway) (hmain : s'.main = s.main)
    (hmanager : s'.manager = s.manager) : s'.Underway := by
  refine ⟨hmanager ▸ h.started, fun rest hr => ?_⟩
  rw [hmanager]
  exact h.ending rest (hmain ▸ hr)

theorem MakerStep.underway {s s' : Server} (hl : s.Linked) (h : s.Underway) (hstep : MakerStep s s') :
    s'.Underway := by
  cases hstep with
  | move pc pc' op d place walk free data =>
    cases data with
    | quiet => exact h.same rfl rfl
    | fill => exact h.same rfl rfl
    | assemble =>
      refine ⟨⟨h.started.threads, fun g hg => ?_⟩, h.ending⟩
      rcases hg with hg | hg <;> cases hg
  | create manager place created =>
    refine ⟨h.started.create hl.inv created, fun rest hr => ?_⟩
    rw [(createStep_lock created).1]
    exact h.ending rest hr
  | created => exact h.same rfl rfl
  | assembleFails => exact h.same rfl rfl
  | createFails => exact h.same rfl rfl

theorem GameStep.underway {s s' : Server} {g : GameId} (h : s.Underway) (hstep : GameStep s g s') :
    s'.Underway := by
  cases hstep with
  | move c e op lobby stepped live free data =>
    exact ⟨h.started.advance rfl rfl (MatchConductorManager.forall_setConductor
      (fun g' c' => (s.manager.conductors g').pc ≠ .unstarted → c'.pc ≠ .unstarted)
      (fun _ => MatchConductor.step_started stepped) fun _ => id), h.ending⟩
  | fails => exact h.same rfl rfl

theorem endStep_underway {m m' : MatchConductorManager} (h : m.Started) (hstep : m.endStep = some (.ok m')) :
    m'.Started ∧ m'.finish ≠ .idle := by
  obtain ⟨hslots, hcreate, -, hconductors⟩ := MatchConductorManager.endStep_ok hstep
  refine ⟨h.advance hslots hcreate ?_, ?_⟩
  · rcases hconductors with hc | ⟨g', -, hc⟩
    · exact fun g hg => by rwa [hc]
    · rw [hc]
      exact MatchConductorManager.forall_setConductor
        (fun g c => (m.conductors g).pc ≠ .unstarted → c.pc ≠ .unstarted) id fun _ => id
  · cases MatchConductorManager.endStep_cases hstep <;> simp

theorem MainStep.underway {s s' : Server} (h : s.Underway) (hstep : MainStep s s') : s'.Underway := by
  cases hstep with
  | move pc pc' op d place walk free data =>
    cases walk with
    | endManager rest =>
      cases data
      exact ⟨h.started.advance rfl rfl fun _ hg => hg, fun _ _ => by simp⟩
    | _ => cases data <;> exact ⟨h.started, nofun⟩
  | finish manager rest place finished =>
    obtain ⟨hstarted, hfinish⟩ := endStep_underway h.started finished
    exact ⟨hstarted, fun _ _ => hfinish⟩
  | fails => exact h.same rfl rfl

theorem Underway.step {s s' : Server} {a : Action} (hl : s.Linked) (h : s.Underway)
    (hstep : s.step a = some s') : s'.Underway := by
  cases (step_cases hstep).2 with
  | connect => exact h.same rfl rfl
  | disconnect => exact h.same rfl rfl
  | socketGone => exact h.same rfl rfl
  | quit => exact ⟨h.started, nofun⟩
  | main _ hs => exact hs.underway h
  | maker _ hs => exact hs.underway hl h
  | callback c _ hs => exact h.same hs.frame.1 hs.frame.2.2
  | game g _ hs => exact hs.underway h

/-! ## Who does not step waits -/

end Server

end PokerEngine
