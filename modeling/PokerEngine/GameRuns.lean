/-
Every game of the program is a run of `Game`, from its start on and until its
conductor is deleted, and its players are distinct (`games_are_runs`). What holds
of all runs of one game, with distinct players and whatever may come in between,
so holds of each game of the program.
-/
import PokerEngine.Apart
import PokerEngine.GameEmbedding
import PokerEngine.Transcript

namespace PokerEngine

open MatchConductorManager (Advances Created)

namespace Server

variable {s s' : Server} {a : Action}

/-! ## Games begin and are deleted -/

/-- What a step does to the conductors. -/
theorem conductors_step (hl : s.Linked) (hstep : s.step a = some s') :
    (∀ i, Advances (s.manager.conductors i) (s'.manager.conductors i)) ∨ Created s.manager s'.manager := by
  cases (step_cases hstep).2 with
  | main _ hs =>
    cases hs with
    | move pc pc' op d place walk free data => cases data <;> exact .inl fun _ => .refl _
    | finish manager rest place finished => exact .inl (MatchConductorManager.endStep_advances finished)
    | fails => exact .inl fun _ => .refl _
  | maker _ hs =>
    cases hs with
    | move pc pc' op d place walk free data => cases data <;> exact .inl fun _ => .refl _
    | create manager place created => exact .inr (MatchConductorManager.createStep_spec hl.inv created).2
    | _ => exact .inl fun _ => .refl _
  | callback c _ hs => exact .inl fun _ => hs.frame.2.2 ▸ .refl _
  | game g _ hs =>
    cases hs with
    | move c e op lobby stepped => exact .inl (hl.inv.conductorStep stepped).2
    | fails => exact .inl fun _ => .refl _
  | _ => exact .inl fun _ => .refl _

/-- A deleted conductor stays deleted. -/
theorem destroyed_step {i : GameId} (hl : s.Linked) (hstep : s.step a = some s')
    (hlive : (s'.manager.conductors i).destroyed = false) : (s.manager.conductors i).destroyed = false := by
  rcases conductors_step hl hstep with hadv | hcreated
  · exact (hadv i).destroyed ▸ hlive
  · cases hcreated with
    | moved conductors => exact conductors ▸ hlive
    | refused _ conductors => exact conductors ▸ hlive
    | deleted g _ _ conductors =>
      rw [conductors, MatchConductorManager.delete_conductors] at hlive
      split at hlive
      next => simp [MatchConductor.destroy] at hlive
      next => exact hlive
    | made c construct conductors =>
      by_cases hi : i = s.manager.made
      · rw [hl.inv.unmade i (Nat.le_of_eq hi.symm)]
        rfl
      · rwa [conductors, Function.update_of_ne hi] at hlive
    | started g create conductors =>
      rw [conductors] at hlive
      by_cases hi : i = g
      · subst hi
        simpa [MatchConductor.goto] using hlive
      · rwa [Function.update_of_ne hi] at hlive

/-- Only `CreateMatchConductor` starts a game's thread. -/
theorem begins_step {i : GameId} (hl : s.Linked) (hstep : s.step a = some s')
    (hbefore : (s.manager.conductors i).pc = .unstarted) (hafter : (s'.manager.conductors i).pc ≠ .unstarted) :
    s.manager.create = .start i ∧ s'.manager.conductors i = (s.manager.conductors i).goto .head := by
  rcases conductors_step hl hstep with hadv | hcreated
  · exact absurd ((hadv i).unstarted hbefore) hafter
  · cases hcreated with
    | moved conductors => exact absurd (conductors ▸ hbefore) hafter
    | refused _ conductors => exact absurd (conductors ▸ hbefore) hafter
    | deleted g _ _ conductors =>
      refine absurd ?_ hafter
      rw [conductors, MatchConductorManager.delete_conductors]
      split
      · exact hbefore
      · exact hbefore
    | made c construct conductors =>
      refine absurd ?_ hafter
      obtain ⟨-, rfl⟩ := MatchConductorManager.construct_ok construct
      rw [conductors]
      by_cases hi : i = s.manager.made
      · rw [hi, Function.update_self]
      · rw [Function.update_of_ne hi, hbefore]
    | started g create conductors =>
      by_cases hi : i = g
      · subst hi
        exact ⟨create, by rw [conductors, Function.update_self]⟩
      · rw [conductors, Function.update_of_ne hi] at hafter
        exact absurd hbefore hafter

end Server

theorem MatchConductor.construct_eq {c : MatchConductor} {roster : List ConnId} (h : c.Whole roster)
    (hpc : c.pc = .unstarted) (hsent : c.sent = []) (hstop : c.stop = false) (hlive : c.destroyed = false) :
    construct (roster.map some) = .ok c := by
  obtain ⟨players, stop, reason, pc, destroyed, sent⟩ := c
  obtain ⟨hplayers, hreason⟩ := h
  simp only at hplayers hreason hpc hsent hstop hlive
  subst hplayers hreason hpc hsent hstop hlive
  simp [construct]

namespace MatchConductorManager

/-- The game that is about to start has not been told to stop: it is not in the
vector yet. -/
def Unasked (m : MatchConductorManager) : Prop := ∀ i, m.create = .start i → (m.conductors i).stop = false

variable {m m' : MatchConductorManager}

theorem Unasked.of_create (h : ∀ i, m.create ≠ .start i) : m.Unasked := fun i hi => absurd hi (h i)

theorem Unasked.create (hstep : m.createStep = some (.ok m')) : m'.Unasked := by
  cases createStep_cases hstep with
  | construct ps c place constructs =>
    obtain ⟨-, rfl⟩ := construct_ok constructs
    intro i hi
    obtain rfl : m.made = i := CreatePc.start.inj hi
    simp [setConductor]
  | cleanUp ps e m' place erases => exact .of_create fun i => by cases eraseStep_cases erases <;> simp
  | _ => exact .of_create fun i => by simp

theorem Unasked.finish (hinv : m.Inv) (h : m.Unasked) (hstep : m.endStep = some (.ok m')) : m'.Unasked := by
  obtain ⟨-, hcreate, -, hconductors⟩ := endStep_ok hstep
  intro i hi
  rw [hcreate] at hi
  rcases hconductors with hc | ⟨g, hg, hc⟩
  · rw [hc]
    exact h i hi
  · have hpending : m.pending = some i := by rw [pending, hi]
    have hne : i ≠ g := fun he => ((hinv.owned g).mp hg).1.2 (he ▸ hpending)
    rw [hc, Function.update_of_ne hne]
    exact h i hi

end MatchConductorManager

namespace Server

variable {s s' : Server} {a : Action}

theorem unasked_step (hl : s.Linked) (h : s.manager.Unasked) (hstep : s.step a = some s') : s'.manager.Unasked := by
  cases (step_cases hstep).2 with
  | main _ hs =>
    cases hs with
    | move pc pc' op d place walk free data => cases data <;> exact h
    | finish manager rest place finished => exact h.finish hl.inv finished
    | fails => exact h
  | maker _ hs =>
    cases hs with
    | move pc pc' op d place walk free data =>
      cases data with
      | assemble => exact .of_create fun i => by simp
      | _ => exact h
    | create manager place created => exact .create created
    | _ => exact h
  | callback c _ hs => exact hs.frame.2.2 ▸ h
  | game g _ hs =>
    cases hs with
    | move c e op lobby stepped =>
      intro i hi
      have hne : i ≠ g := fun he => (MatchConductor.step_keeps stepped).2.2.1 (he ▸ hl.inv.starting i hi)
      show (Function.update s.manager.conductors g c i).stop = false
      rw [Function.update_of_ne hne]
      exact h i hi
    | fails => exact h
  | _ => exact h

theorem clients_step {c : ConnId} (hstep : s.step a = some s') (hc : c ∈ s.clients) : c ∈ s'.clients := by
  cases (step_cases hstep).2 with
  | connect => exact List.mem_append_left _ hc
  | main _ hs =>
    cases hs with
    | move pc pc' op d place walk free data => cases data <;> exact hc
    | _ => exact hc
  | maker _ hs =>
    cases hs with
    | move pc pc' op d place walk free data => cases data <;> exact hc
    | _ => exact hc
  | callback _ _ hs =>
    cases hs with
    | move pc pc' op d place walk free data => cases data <;> exact hc
    | _ => exact hc
  | game _ _ hs => cases hs <;> exact hc
  | _ => exact hc

/-! ## The games of the program -/

/-- The game `i` has come from a start with distinct players. -/
def Plays (s : Server) (i : GameId) : Prop :=
  ∃ roster closed alive, roster.Nodup ∧ s.Follows i (Game.start roster closed alive)

/-- What `games_are_runs` rests on. -/
structure Playing (s : Server) : Prop where
  linked : s.Linked
  apart : s.Apart
  scripted : s.Scripted
  unasked : s.manager.Unasked
  plays : ∀ i, (s.manager.conductors i).pc ≠ .unstarted → (s.manager.conductors i).destroyed = false → s.Plays i

theorem Playing.initial : initial.Playing :=
  ⟨.initial, .initial, .initial, .of_create fun i => by
    change ¬ CreatePc.idle = .start i
    simp, fun i h => absurd rfl h⟩

/-- A conductor that is about to start is as the constructor made it. -/
theorem Playing.constructed (h : s.Playing) {i : GameId} (hi : s.manager.create = .start i) :
    ∃ roster : List ConnId, roster.Nodup ∧ (∀ p ∈ roster, p ∈ s.clients) ∧
      MatchConductor.construct (roster.map some) = .ok (s.manager.conductors i) := by
  have hinv := h.linked.inv
  have hpc := hinv.starting i hi
  have hpending : s.manager.pending = some i := by rw [MatchConductorManager.pending, hi]
  obtain ⟨hlast, hlive⟩ := hinv.pending i hpending
  obtain ⟨roster, -, -, hscript⟩ := h.scripted.games i (Nat.lt_of_succ_le (Nat.le_of_eq hlast))
  have hhere := hscript hlive
  rw [MatchConductor.Script, hpc] at hhere
  obtain ⟨hwhole, hsent⟩ := hhere
  have hseated : (s.manager.conductors i).seated = roster := by
    rw [MatchConductor.seated, hwhole.players, hpc]
    simp [GamePc.value, List.reduceOption]
  refine ⟨roster, ?_, fun p hp => ?_, ?_⟩
  · exact hseated ▸ h.apart.exclusive.nodup (.game i)
  · by_contra hstranger
    have hregistered := h.apart.registered p ⟨.game i, by rw [playersAt, hseated]; exact hp⟩
    rw [h.linked.fresh p hstranger] at hregistered
    simp [CallbackPc.registered] at hregistered
  · exact MatchConductor.construct_eq hwhole hpc hsent (h.unasked i hi) hlive

/-- A game goes on, and its roster stays. -/
theorem Plays.step {i : GameId} (hl : s.Linked) (h : s.Plays i) (hstep : s.step a = some s')
    (hlive : (s'.manager.conductors i).destroyed = false) : s'.Plays i := by
  obtain ⟨roster, closed, alive, hdistinct, bs, g, hrun, hwatches⟩ := h
  have hall : Transition.Always Game.step Game.Inv (Game.start roster closed alive) bs :=
    Transition.always_of_invariant (fun _ _ _ => Game.Inv.step) (Game.Inv.start hdistinct closed alive) bs
  have hg : g.Inv := hall.of_run hrun
  obtain ⟨cs, g', hrun', hwatches'⟩ := hwatches.step hl hg hstep hlive
  refine ⟨roster, closed, alive, hdistinct, bs ++ cs, g', ?_, hwatches'⟩
  rw [Transition.run_append, hrun]
  exact hrun'

theorem Playing.step (h : s.Playing) (hstep : s.step a = some s') : s'.Playing where
  linked := h.linked.step hstep
  apart := h.apart.step h.linked hstep
  scripted := h.scripted.step h.linked hstep
  unasked := unasked_step h.linked h.unasked hstep
  plays i hstarted hlive := by
    by_cases hbefore : (s.manager.conductors i).pc = .unstarted
    · obtain ⟨hi, hstart⟩ := begins_step h.linked hstep hbefore hstarted
      obtain ⟨roster, hdistinct, hknown, hmade⟩ := h.constructed hi
      have hclients : ∀ p ∈ roster, p ∈ s'.clients := fun p hp => clients_step hstep (hknown p hp)
      exact ⟨roster, s'.closed, s'.alive, hdistinct, [], _, rfl, Watches.start hmade hstart hclients⟩
    · exact (h.plays i hbefore (destroyed_step h.linked hstep hlive)).step h.linked hstep hlive

/-- **The games in the program.** In every run each game that has started, and
whose conductor has not been deleted, is in a state that the game on its own can
reach from a start with its players, who are distinct. -/
theorem games_are_runs (as : List Action) :
    Transition.Always step (fun s => ∀ i, (s.manager.conductors i).pc ≠ .unstarted →
      (s.manager.conductors i).destroyed = false → s.Plays i) initial as := by
  have hall : Transition.Always step Playing initial as :=
    Transition.always_of_invariant (fun _ _ _ h hs => h.step hs) .initial as
  exact hall.mono fun _ h => h.plays

end Server

end PokerEngine
