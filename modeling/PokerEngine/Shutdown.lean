/-
What `ServerManager::End` leaves behind: the match maker's thread has returned,
every game made is told to stop, and none is made or started afterwards,
whatever the other threads do meanwhile.

`AtPlace` says what holds at each place of the main thread. It rests on the
order in which `Initialize` adds the observers: `End` goes through them from the
last to the first, so the match maker is joined before the games are stopped.
-/
import PokerEngine.Embedding
import PokerEngine.Transition

namespace PokerEngine

/-- The games of these slots are told to stop. -/
def MatchConductorManager.Stopped (m : MatchConductorManager) (slots : List Slot) : Prop :=
  ∀ slot ∈ slots, ∀ g, slot.conductor = some g → (m.conductors g).hasFinished = true

/-- How far `MatchConductorManager::End` has come through the vector. -/
def MatchConductorManager.Swept (m : MatchConductorManager) : Prop :=
  match m.finish with
  | .force i => m.Stopped (m.matchConductors.take i)
  | .unlock => m.Stopped m.matchConductors
  | .done => m.Stopped m.matchConductors
  | _ => True

namespace Server

/-- What holds at each place of the main thread; it is at no other. -/
def AtPlace (s : Server) : Prop :=
  match s.main with
  | .lockStart => True
  | .start [.matchConductorManager, .server, .matchMaker] => True
  | .start [.server, .matchMaker] => True
  | .start [.matchMaker] => True
  | .start [] => s.maker ≠ .unstarted
  | .waiting => s.maker ≠ .unstarted
  | .lockEnd => s.maker ≠ .unstarted
  | .ending [.matchMaker, .server, .matchConductorManager] => s.maker ≠ .unstarted
  | .makerJoin [.server, .matchConductorManager] => s.maker ≠ .unstarted
  | .makerResetStop [.server, .matchConductorManager] => s.maker = .returned
  | .ending [.server, .matchConductorManager] => s.maker = .returned
  | .serverStop [.matchConductorManager] => s.maker = .returned
  | .ending [.matchConductorManager] => s.maker = .returned
  | .managerEnd [] => s.maker = .returned ∧ s.manager.Swept
  | .ending [] => s.maker = .returned ∧ s.manager.Stopped s.manager.matchConductors
  | .ended => s.maker = .returned ∧ s.manager.Stopped s.manager.matchConductors
  | _ => False

/-- What other threads can do while the main thread stands still: a match maker
once started goes on, one that has returned stays so, and then the vector is
left alone and games only come nearer their end. -/
structure Others (s s' : Server) : Prop where
  main : s'.main = s.main
  started : s.maker ≠ .unstarted → s'.maker ≠ .unstarted
  returned : s.maker = .returned → s'.maker = .returned ∧
    s'.manager.matchConductors = s.manager.matchConductors ∧ s'.manager.finish = s.manager.finish ∧
    s'.manager.made = s.manager.made ∧
    ∀ g, MatchConductorManager.Advances (s.manager.conductors g) (s'.manager.conductors g)

theorem Others.of_same {s s' : Server} (hmain : s'.main = s.main) (hmaker : s'.maker = s.maker)
    (hmanager : s'.manager = s.manager) : Others s s' where
  main := hmain
  started h := hmaker ▸ h
  returned h := by
    rw [hmanager]
    exact ⟨hmaker ▸ h, rfl, rfl, rfl, fun g => .refl _⟩

theorem stopped_advance {m m' : MatchConductorManager} {slots : List Slot} (h : m.Stopped slots)
    (hadv : ∀ g, MatchConductorManager.Advances (m.conductors g) (m'.conductors g)) : m'.Stopped slots :=
  fun slot hslot g hg => (hadv g).stop (h slot hslot g hg)

theorem AtPlace.others {s s' : Server} (h : s.AtPlace) (ho : Others s s') : s'.AtPlace := by
  unfold AtPlace at h ⊢
  rw [ho.main]
  split at h
  · trivial
  · trivial
  · trivial
  · trivial
  · exact ho.started h
  · exact ho.started h
  · exact ho.started h
  · exact ho.started h
  · exact ho.started h
  · exact (ho.returned h).1
  · exact (ho.returned h).1
  · exact (ho.returned h).1
  · exact (ho.returned h).1
  · obtain ⟨hmaker, hslots, hfinish, -, hadv⟩ := ho.returned h.1
    refine ⟨hmaker, ?_⟩
    have hswept := h.2
    unfold MatchConductorManager.Swept at hswept ⊢
    rw [hfinish, hslots]
    split at hswept
    · exact stopped_advance hswept hadv
    · exact stopped_advance hswept hadv
    · exact stopped_advance hswept hadv
    · trivial
  · obtain ⟨hmaker, hslots, -, -, hadv⟩ := ho.returned h.1
    exact ⟨hmaker, hslots ▸ stopped_advance h.2 hadv⟩
  · obtain ⟨hmaker, hslots, -, -, hadv⟩ := ho.returned h.1
    exact ⟨hmaker, hslots ▸ stopped_advance h.2 hadv⟩
  · exact h

/-- One more slot is swept with each step of the loop. -/
theorem swept_endStep {m m' : MatchConductorManager} (h : m.Swept) (hstep : m.endStep = some (.ok m')) :
    m'.Swept := by
  have hadv := MatchConductorManager.endStep_advances hstep
  unfold MatchConductorManager.Swept at h
  cases MatchConductorManager.endStep_cases hstep with
  | setFlag => exact trivial
  | lock =>
    intro slot hslot
    simp at hslot
  | forced i place past =>
    have hall : m.matchConductors.take i = m.matchConductors :=
      List.take_of_length_le (List.getElem?_eq_none_iff.mp past)
    simp only [place, hall] at h
    exact h
  | force i slot g place hslot hg =>
    rw [place] at h
    have htake : m.matchConductors.take (i + 1) = m.matchConductors.take i ++ [slot] := by
      rw [List.take_add_one, hslot]
      rfl
    intro slot' hslot' g' hg'
    simp only [MatchConductorManager.setConductor] at hslot'
    rw [htake] at hslot'
    rcases List.mem_append.mp hslot' with hslot' | hslot'
    · exact (hadv g').stop (h slot' hslot' g' hg')
    · rw [List.mem_singleton.mp hslot', hg, Option.some.injEq] at hg'
      simp [hg', MatchConductorManager.setConductor, MatchConductor.forceFinish, MatchConductor.hasFinished]
  | unlock place =>
    rw [place] at h
    exact h

/-- `AtPlace`, place by place. -/
inductive Place (s : Server) : MainPc → Prop
  | lockStart : Place s .lockStart
  | startManager : Place s (.start [.matchConductorManager, .server, .matchMaker])
  | startServer : Place s (.start [.server, .matchMaker])
  | startMaker : Place s (.start [.matchMaker])
  | started (maker : s.maker ≠ .unstarted) : Place s (.start [])
  | waiting (maker : s.maker ≠ .unstarted) : Place s .waiting
  | lockEnd (maker : s.maker ≠ .unstarted) : Place s .lockEnd
  | endMaker (maker : s.maker ≠ .unstarted) : Place s (.ending [.matchMaker, .server, .matchConductorManager])
  | makerJoin (maker : s.maker ≠ .unstarted) : Place s (.makerJoin [.server, .matchConductorManager])
  | makerResetStop (maker : s.maker = .returned) : Place s (.makerResetStop [.server, .matchConductorManager])
  | endServer (maker : s.maker = .returned) : Place s (.ending [.server, .matchConductorManager])
  | serverStop (maker : s.maker = .returned) : Place s (.serverStop [.matchConductorManager])
  | endManager (maker : s.maker = .returned) : Place s (.ending [.matchConductorManager])
  | managerEnd (maker : s.maker = .returned) (swept : s.manager.Swept) : Place s (.managerEnd [])
  | unlockEnd (maker : s.maker = .returned) (stopped : s.manager.Stopped s.manager.matchConductors) :
    Place s (.ending [])
  | ended (maker : s.maker = .returned) (stopped : s.manager.Stopped s.manager.matchConductors) : Place s .ended

theorem AtPlace.place {s : Server} (h : s.AtPlace) : Place s s.main := by
  unfold AtPlace at h
  split at h
  next hpc => rw [hpc]; exact .lockStart
  next hpc => rw [hpc]; exact .startManager
  next hpc => rw [hpc]; exact .startServer
  next hpc => rw [hpc]; exact .startMaker
  next hpc => rw [hpc]; exact .started h
  next hpc => rw [hpc]; exact .waiting h
  next hpc => rw [hpc]; exact .lockEnd h
  next hpc => rw [hpc]; exact .endMaker h
  next hpc => rw [hpc]; exact .makerJoin h
  next hpc => rw [hpc]; exact .makerResetStop h
  next hpc => rw [hpc]; exact .endServer h
  next hpc => rw [hpc]; exact .serverStop h
  next hpc => rw [hpc]; exact .endManager h
  next hpc => rw [hpc]; exact .managerEnd h.1 h.2
  next hpc => rw [hpc]; exact .unlockEnd h.1 h.2
  next hpc => rw [hpc]; exact .ended h.1 h.2
  next => exact h.elim

theorem MainStep.atPlace {s s' : Server} (h : s.AtPlace) (hstep : MainStep s s') : s'.AtPlace := by
  have hplace := h.place
  cases hstep with
  | move pc pc' op d place walk free data =>
    rw [place] at hplace
    cases walk with
    | lockStart => cases data; exact trivial
    | unlockStart =>
      cases hplace with
      | started maker => cases data; exact maker
    | lockEnd =>
      cases hplace with
      | lockEnd maker => cases data; exact maker
    | unlockEnd =>
      cases hplace with
      | unlockEnd maker stopped => cases data; exact ⟨maker, stopped⟩
    | start observer rest =>
      cases hplace with
      | startManager => cases data; exact trivial
      | startServer => cases data; exact trivial
      | startMaker =>
        cases data
        show (if s.maker = .unstarted then MakerPc.testStop else s.maker) ≠ .unstarted
        split
        · simp
        · assumption
    | endMaker rest =>
      cases hplace with
      | endMaker maker => cases data; exact maker
    | endServer rest =>
      cases hplace with
      | endServer maker => cases data; exact maker
    | endManager rest =>
      cases hplace with
      | endManager maker => cases data; exact ⟨maker, trivial⟩
    | makerJoin rest =>
      cases hplace with
      | makerJoin maker =>
        cases data with
        | makerJoin _ joined => exact joined.resolve_left maker
    | makerResetStop rest =>
      cases hplace with
      | makerResetStop maker => cases data; exact maker
    | serverStop rest =>
      cases hplace with
      | serverStop maker => cases data; exact maker
    | managerEnd rest =>
      cases hplace with
      | managerEnd maker swept =>
        cases data with
        | managerEnd _ done =>
          unfold MatchConductorManager.Swept at swept
          rw [done] at swept
          exact ⟨maker, swept⟩
  | finish manager rest place finished =>
    rw [place] at hplace
    cases hplace with
    | managerEnd maker swept =>
      unfold AtPlace
      simp only [place]
      exact ⟨maker, swept_endStep swept finished⟩
  | fails => exact h

/-! ## The other threads -/

theorem MakerStep.others {s s' : Server} (hstep : MakerStep s s') : Others s s' := by
  cases hstep with
  | move pc pc' op d place walk free data =>
    have hgone : s.maker ≠ .returned := by rw [place]; cases walk <;> simp
    have hstarted : pc' ≠ .unstarted := by cases walk <;> (try split) <;> simp
    cases data with
    | quiet => exact ⟨rfl, fun _ => hstarted, fun h => absurd h hgone⟩
    | fill => exact ⟨rfl, fun _ => hstarted, fun h => absurd h hgone⟩
    | assemble => exact ⟨rfl, fun _ => hstarted, fun h => absurd h hgone⟩
  | create manager place created => exact ⟨rfl, id, fun h => absurd (place.symm.trans h) (by simp)⟩
  | created place idle => exact ⟨rfl, fun _ => by simp [makerTo], fun h => absurd (place.symm.trans h) (by simp)⟩
  | assembleFails => exact .of_same rfl rfl rfl
  | createFails => exact .of_same rfl rfl rfl

theorem GameStep.others {s s' : Server} {g : GameId} (h : s.Linked) (hstep : GameStep s g s') : Others s s' := by
  cases hstep with
  | move c e op lobby stepped live free data =>
    exact ⟨rfl, id, fun h' => ⟨h', rfl, rfl, rfl, (h.inv.conductorStep stepped).2⟩⟩
  | fails => exact .of_same rfl rfl rfl

theorem AtPlace.step {s s' : Server} {a : Action} (hl : s.Linked) (h : s.AtPlace)
    (hstep : s.step a = some s') : s'.AtPlace := by
  cases (step_cases hstep).2 with
  | connect => exact h.others (.of_same rfl rfl rfl)
  | disconnect => exact h.others (.of_same rfl rfl rfl)
  | socketGone => exact h.others (.of_same rfl rfl rfl)
  | quit waiting =>
    unfold AtPlace at h
    rw [waiting] at h
    exact h
  | main _ hs => exact hs.atPlace h
  | maker _ hs => exact h.others hs.others
  | callback c _ hs => exact h.others (.of_same hs.frame.1 hs.frame.2.1 hs.frame.2.2)
  | game g _ hs => exact h.others (hs.others hl)

/-! ## After `End` -/

theorem Others.trans {s t u : Server} (h : Others s t) (h' : Others t u) : Others s u where
  main := h'.main.trans h.main
  started := h'.started ∘ h.started
  returned hs := by
    obtain ⟨hmaker, hslots, hfinish, hmade, hadv⟩ := h.returned hs
    obtain ⟨hmaker', hslots', hfinish', hmade', hadv'⟩ := h'.returned hmaker
    exact ⟨hmaker', hslots'.trans hslots, hfinish'.trans hfinish, hmade'.trans hmade,
      fun g => (hadv g).trans (hadv' g)⟩

/-- After `End` the main thread is done, so every step is one of the others. -/
theorem others_of_ended {s s' : Server} {a : Action} (hl : s.Linked) (hended : s.main = .ended)
    (hstep : s.step a = some s') : Others s s' := by
  cases (step_cases hstep).2 with
  | connect => exact .of_same rfl rfl rfl
  | disconnect => exact .of_same rfl rfl rfl
  | socketGone => exact .of_same rfl rfl rfl
  | quit waiting => simp [hended] at waiting
  | main _ hs =>
    cases hs with
    | move pc pc' op d place walk free data =>
      rw [hended] at place
      rw [← place] at walk
      cases walk
    | finish manager rest place => simp [hended] at place
    | fails => exact .of_same rfl rfl rfl
  | maker _ hs => exact hs.others
  | callback c _ hs => exact .of_same hs.frame.1 hs.frame.2.1 hs.frame.2.2
  | game g _ hs => exact hs.others hl

/-- Every game made is in the vector, or was deleted, finished, by a clean-up:
none is between the two ends of `CreateMatchConductor`. -/
theorem finished_of_stopped {s : Server} (h : s.Linked) (hmaker : s.maker = .returned)
    (hstopped : s.manager.Stopped s.manager.matchConductors) {g : GameId} (hg : g < s.manager.made) :
    (s.manager.conductors g).hasFinished = true := by
  have hidle := h.idle (by rw [hmaker]; simp)
  cases hd : (s.manager.conductors g).destroyed with
  | true => exact h.inv.finished g hd
  | false =>
    have hregistered : s.manager.Registered g := ⟨hg, by simp [MatchConductorManager.pending, hidle]⟩
    obtain ⟨slot, hslot, hc⟩ := List.mem_filterMap.mp ((h.inv.owned g).mpr ⟨hregistered, hd⟩)
    exact hstopped slot hslot g hc

/-- Nothing is made or started between `s` and `t`. -/
structure NoneStarted (s t : Server) : Prop where
  maker : t.maker = .returned
  made : t.manager.made = s.manager.made
  slots : t.manager.matchConductors = s.manager.matchConductors
  unstarted : ∀ g, (s.manager.conductors g).pc = .unstarted → (t.manager.conductors g).pc = .unstarted

/-- **What `End` leaves behind.** Once `End` has returned, in any run of the
program, the match maker's thread has returned, every game in the vector and
every game ever made is told to stop, and however the other threads go on no
game is made or started. -/
theorem end_stops_everything {as : List Action} {s : Server}
    (hrun : Transition.run step initial as = some s) (hended : s.main = .ended) :
    s.maker = .returned ∧ s.manager.Stopped s.manager.matchConductors ∧
      (∀ g < s.manager.made, (s.manager.conductors g).hasFinished = true) ∧
      ∀ bs, Transition.Always step (NoneStarted s) s bs := by
  have hboth : s.Linked ∧ s.AtPlace :=
    (Transition.always_of_invariant (I := fun s => s.Linked ∧ s.AtPlace)
      (fun _ _ _ h hs => ⟨h.1.step hs, h.2.step h.1 hs⟩) ⟨Linked.initial, trivial⟩ as).of_run hrun
  obtain ⟨hl, hplace⟩ := hboth
  unfold AtPlace at hplace
  rw [hended] at hplace
  obtain ⟨hmaker, hstopped⟩ := hplace
  refine ⟨hmaker, hstopped, fun g hg => finished_of_stopped hl hmaker hstopped hg, fun bs => ?_⟩
  have hothers : Transition.Always step (fun t => t.Linked ∧ Others s t) s bs := by
    refine Transition.always_of_invariant (fun t b u h hs => ⟨h.1.step hs, h.2.trans ?_⟩)
      ⟨hl, .of_same rfl rfl rfl⟩ bs
    exact others_of_ended h.1 (h.2.main.trans hended) hs
  refine hothers.mono fun t ht => ?_
  obtain ⟨hmaker', hslots, -, hmade, hadv⟩ := ht.2.returned hmaker
  exact ⟨hmaker', hmade, hslots, fun g => (hadv g).unstarted⟩

/-- Three players are matched; the operator quits while `CreateMatchConductor`
is between its clean-up and the making of the game. -/
def shutdownRun : List Action :=
  List.replicate 5 (.run .main) ++
  .connect 0 :: List.replicate 5 (.run (.callback 0)) ++
  .connect 1 :: List.replicate 5 (.run (.callback 1)) ++
  .connect 2 :: List.replicate 5 (.run (.callback 2)) ++
  List.replicate 25 (.run .maker) ++ .quit :: List.replicate 2 (.run .main) ++
  List.replicate 6 (.run .maker) ++ List.replicate 12 (.run .main)

/-- The game made after the operator quit is told to stop as well. -/
theorem end_stops_everything_shutdownRun :
    ∃ s, Transition.run step initial shutdownRun = some s ∧ s.manager.made = 1 ∧
      s.maker = .returned ∧ s.manager.Stopped s.manager.matchConductors ∧
      (∀ g < s.manager.made, (s.manager.conductors g).hasFinished = true) ∧
      ∀ bs, Transition.Always step (NoneStarted s) s bs := by
  have h : (Transition.run step initial shutdownRun).map (fun s => (s.main, s.manager.made)) =
      some (.ended, 1) := by rfl
  obtain ⟨s, hs, hp⟩ := Option.map_eq_some_iff.mp h
  simp only [Prod.mk.injEq] at hp
  exact ⟨s, hs, hp.2, end_stops_everything hs hp.1⟩

end Server

end PokerEngine
