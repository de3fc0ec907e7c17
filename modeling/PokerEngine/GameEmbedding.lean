/-
One game inside the program: while its conductor lives, every step of the
program is a step of the game, or nothing to it (`Watches.step`).
-/
import PokerEngine.Game
import PokerEngine.Embedding

namespace PokerEngine

namespace Server

/-- `g` is the game `i` of the program. -/
structure Watches (s : Server) (i : GameId) (g : Game) : Prop where
  conductor : g.conductor = s.manager.conductors i
  closed : g.closed = s.closed
  alive : g.alive = s.alive
  known : ∀ p ∈ g.roster, p ∈ s.clients

/-- The game `i` has come from `g` by steps of its own. -/
def Follows (s : Server) (i : GameId) (g : Game) : Prop :=
  ∃ bs g', Transition.run Game.step g bs = some g' ∧ s.Watches i g'

theorem Watches.stays {s s' : Server} {i : GameId} {g : Game} (h : s.Watches i g)
    (hconductor : s'.manager.conductors i = s.manager.conductors i) (hclosed : s'.closed = s.closed)
    (halive : s'.alive = s.alive) (hclients : ∀ c ∈ s.clients, c ∈ s'.clients) : s'.Follows i g :=
  ⟨[], g, rfl, h.conductor.trans hconductor.symm, h.closed.trans hclosed.symm, h.alive.trans halive.symm,
    fun p hp => hclients p (h.known p hp)⟩

theorem Follows.of_step {s : Server} {i : GameId} {g g' : Game} (b : Game.Action) (hstep : g.step b = some g')
    (h : s.Watches i g') : s.Follows i g :=
  ⟨[b], g', Transition.run_cons_some.mpr ⟨g', hstep, rfl⟩, h⟩

/-- The thread of a conductor as it was made starts. -/
theorem Watches.start {s s' : Server} {i : GameId} {players : List ConnId}
    (made : MatchConductor.construct (players.map some) = .ok (s.manager.conductors i))
    (started : s'.manager.conductors i = (s.manager.conductors i).goto .head)
    (known : ∀ p ∈ players, p ∈ s'.clients) : s'.Watches i (.start players s'.closed s'.alive) := by
  have hstart := Game.construct_start players s'.closed s'.alive
  rw [made] at hstart
  exact ⟨(Except.ok.inj hstart).symm.trans started.symm, rfl, rfl, known⟩

theorem CallbackStep.follows {s s' : Server} {c : ConnId} {i : GameId} {g : Game} (h : s.Watches i g)
    (hstep : CallbackStep s c s') : s'.Follows i g := by
  cases hstep with
  | move pc pc' op d place walk free data =>
    cases data with
    | setClosed =>
      refine .of_step (.setClosed c) rfl ⟨h.conductor, ?_, h.alive, h.known⟩
      simp [h.closed]
    | _ => exact h.stays rfl rfl rfl fun _ hc => hc
  | notFound => exact h.stays rfl rfl rfl fun _ hc => hc
  | scanFails => exact h.stays rfl rfl rfl fun _ hc => hc

theorem GameStep.follows {s s' : Server} {j : GameId} {i : GameId} {g : Game} (h : s.Watches i g)
    (hstep : GameStep s j s') : s'.Follows i g := by
  cases hstep with
  | move c e op lobby stepped live free data =>
    by_cases hj : j = i
    · subst hj
      have hthread : g.conductor.step g.closed g.alive = some (c, e) := by
        rw [h.conductor, h.closed, h.alive, stepped]
      have hstep : g.step .thread = some (g.after c) := by
        cases data <;> simp [Game.step, hthread]
      refine .of_step .thread hstep ⟨?_, h.closed, h.alive, h.known⟩
      simp [Game.after, MatchConductorManager.setConductor]
    · refine h.stays ?_ rfl rfl fun _ hc => hc
      exact Function.update_of_ne (Ne.symm hj) _ _
  | fails => exact h.stays rfl rfl rfl fun _ hc => hc

theorem MainStep.follows {s s' : Server} {i : GameId} {g : Game} (h : s.Watches i g) (hstep : MainStep s s') :
    s'.Follows i g := by
  cases hstep with
  | move pc pc' op d place walk free data => cases data <;> exact h.stays rfl rfl rfl fun _ hc => hc
  | finish manager rest place finished =>
    obtain ⟨-, -, -, hc | ⟨j, -, hc⟩⟩ := MatchConductorManager.endStep_ok finished
    · exact h.stays (congrFun hc i) rfl rfl fun _ hc => hc
    · by_cases hj : j = i
      · subst hj
        refine .of_step .forceFinish rfl ⟨?_, h.closed, h.alive, h.known⟩
        simp [hc, h.conductor]
      · refine h.stays ?_ rfl rfl fun _ hc => hc
        simp [hc, Ne.symm hj]
  | fails => exact h.stays rfl rfl rfl fun _ hc => hc

/-- `CreateMatchConductor` makes and starts other games, and deletes this one
only after its time. -/
theorem MakerStep.follows {s s' : Server} {i : GameId} {g : Game} (hl : s.Linked) (hg : g.Inv)
    (h : s.Watches i g) (hstep : MakerStep s s') (hlive : (s'.manager.conductors i).destroyed = false) :
    s'.Follows i g := by
  have hstarted : (s.manager.conductors i).pc ≠ .unstarted := by
    intro hpc
    have hhere := hg.here
    rw [h.conductor, hpc] at hhere
    exact hhere
  cases hstep with
  | move pc pc' op d place walk free data => cases data <;> exact h.stays rfl rfl rfl fun _ hc => hc
  | create manager place created =>
    refine h.stays ?_ rfl rfl fun _ hc => hc
    cases (MatchConductorManager.createStep_spec hl.inv created).2 with
    | moved conductors => exact congrFun conductors i
    | refused _ conductors => exact congrFun conductors i
    | deleted j _ _ conductors =>
      have hne : i ≠ j := fun he => by
        rw [conductors, he] at hlive
        simp [MatchConductorManager.delete, MatchConductorManager.setConductor, MatchConductor.destroy] at hlive
      rw [conductors]
      exact Function.update_of_ne hne _ _
    | made c _ conductors =>
      have hne : i ≠ s.manager.made := fun he => hstarted (by rw [hl.inv.unmade i (Nat.le_of_eq he.symm)]; rfl)
      rw [conductors, Function.update_of_ne hne]
    | started j create conductors =>
      have hne : i ≠ j := fun he => hstarted (he ▸ hl.inv.starting j create)
      rw [conductors, Function.update_of_ne hne]
  | created => exact h.stays rfl rfl rfl fun _ hc => hc
  | assembleFails => exact h.stays rfl rfl rfl fun _ hc => hc
  | createFails => exact h.stays rfl rfl rfl fun _ hc => hc

/-- A step of the program. -/
theorem Watches.step {s s' : Server} {a : Action} {i : GameId} {g : Game} (hl : s.Linked) (hg : g.Inv)
    (h : s.Watches i g) (hstep : s.step a = some s') (hlive : (s'.manager.conductors i).destroyed = false) :
    s'.Follows i g := by
  cases (step_cases hstep).2 with
  | connect c listening fresh =>
    have hother : c ∉ g.roster := fun hc => fresh (h.known c hc)
    refine .of_step (.connect c) (if_neg hother) ⟨h.conductor, h.closed, ?_, fun p hp => ?_⟩
    · simp [h.alive]
    · exact List.mem_append_left _ (h.known p hp)
  | disconnect c => exact h.stays rfl rfl rfl fun _ hc => hc
  | socketGone c =>
    refine .of_step (.socketGone c) rfl ⟨h.conductor, h.closed, ?_, h.known⟩
    simp [h.alive]
  | quit => exact h.stays rfl rfl rfl fun _ hc => hc
  | main _ hs => exact hs.follows h
  | maker _ hs => exact hs.follows hl hg h hlive
  | callback c _ hs => exact hs.follows h
  | game j _ hs => exact hs.follows h

end Server

end PokerEngine
