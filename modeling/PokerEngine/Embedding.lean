/-
The manager of the games inside the program: the program's steps are steps of
the manager, so what holds of it on its own (`CleanUp`) holds in the program.
-/
import PokerEngine.CleanUp
import PokerEngine.ServerSteps

namespace PokerEngine

namespace Server

/-- The manager is in order, `CreateMatchConductor` is only under way while the
match maker is in it, and there is no callback before the connection. -/
structure Linked (s : Server) : Prop where
  inv : s.manager.Inv
  idle : s.maker ≠ .creating → s.manager.create = .idle
  fresh : ∀ c, c ∉ s.clients → s.callbacks c = .idle

theorem Linked.initial : initial.Linked := ⟨MatchConductorManager.Inv.initial, fun _ => rfl, fun _ _ => rfl⟩

/-- A call of `CreateMatchConductor`. -/
theorem inv_call {m : MatchConductorManager} (h : m.Inv) (hidle : m.create = .idle)
    (ps : List (Option ConnId)) : { m with create := .testFinish ps : MatchConductorManager }.Inv := by
  have hstep : m.step (.call ps) = some { m with create := .testFinish ps } := by
    simp [MatchConductorManager.step, hidle]
  exact (MatchConductorManager.step_spec h hstep).1

theorem inv_finish {m : MatchConductorManager} (h : m.Inv) (finish : EndPc) :
    { m with finish : MatchConductorManager }.Inv :=
  h.advance rfl rfl rfl (fun _ => .refl _) fun _ _ => rfl

theorem MakerStep.linked {s s' : Server} (h : s.Linked) (hstep : MakerStep s s') : s'.Linked := by
  cases hstep with
  | move pc pc' op d place walk free data =>
    have hidle : s.manager.create = .idle := h.idle (by rw [place]; cases walk <;> simp)
    cases data with
    | quiet => exact ⟨h.inv, fun _ => hidle, h.fresh⟩
    | fill => exact ⟨h.inv, fun _ => hidle, h.fresh⟩
    | assemble => exact ⟨inv_call h.inv hidle _, fun hne => absurd rfl hne, h.fresh⟩
  | create manager place created =>
    exact ⟨(MatchConductorManager.createStep_spec h.inv created).1, fun hne => absurd place hne, h.fresh⟩
  | created place idle => exact ⟨h.inv, fun _ => idle, h.fresh⟩
  | assembleFails => exact ⟨h.inv, h.idle, h.fresh⟩
  | createFails => exact ⟨h.inv, h.idle, h.fresh⟩

theorem GameStep.linked {s s' : Server} {g : GameId} (h : s.Linked) (hstep : GameStep s g s') : s'.Linked := by
  cases hstep with
  | move c e op lobby stepped live free data =>
    exact ⟨(h.inv.conductorStep stepped).1, h.idle, h.fresh⟩
  | fails => exact ⟨h.inv, h.idle, h.fresh⟩

theorem MainStep.linked {s s' : Server} (h : s.Linked) (hstep : MainStep s s') : s'.Linked := by
  cases hstep with
  | move pc pc' op d place walk free data =>
    cases data with
    | startMaker =>
      refine ⟨h.inv, fun hne => h.idle fun he => hne ?_, h.fresh⟩
      simp [he]
    | endManager => exact ⟨inv_finish h.inv _, h.idle, h.fresh⟩
    | lockStart => exact ⟨h.inv, h.idle, h.fresh⟩
    | unlockStart => exact ⟨h.inv, h.idle, h.fresh⟩
    | startManager => exact ⟨h.inv, h.idle, h.fresh⟩
    | startServer => exact ⟨h.inv, h.idle, h.fresh⟩
    | lockEnd => exact ⟨h.inv, h.idle, h.fresh⟩
    | unlockEnd => exact ⟨h.inv, h.idle, h.fresh⟩
    | endMaker => exact ⟨h.inv, h.idle, h.fresh⟩
    | endServer => exact ⟨h.inv, h.idle, h.fresh⟩
    | makerJoin => exact ⟨h.inv, h.idle, h.fresh⟩
    | makerResetStop => exact ⟨h.inv, h.idle, h.fresh⟩
    | serverStop => exact ⟨h.inv, h.idle, h.fresh⟩
    | managerEnd => exact ⟨h.inv, h.idle, h.fresh⟩
  | finish manager rest place finished =>
    have hcreate := (MatchConductorManager.endStep_ok finished).2.1
    exact ⟨h.inv.finish finished, fun hne => hcreate.trans (h.idle hne), h.fresh⟩
  | fails => exact ⟨h.inv, h.idle, h.fresh⟩

theorem CallbackStep.linked {s s' : Server} {c : ConnId} (h : s.Linked) (hstep : CallbackStep s c s') :
    s'.Linked := by
  cases hstep with
  | move pc pc' op d place walk free data =>
    have hself : c ∉ s.clients → pc' = .idle := fun hc => by
      rw [h.fresh c hc] at place
      rw [← place] at walk
      cases walk
    have hfresh : ∀ c', c' ∉ s.clients → Function.update s.callbacks c pc' c' = .idle :=
      (Function.forall_update_iff s.callbacks fun c' pc => c' ∉ s.clients → pc = .idle).mpr
        ⟨hself, fun c' _ => h.fresh c'⟩
    cases data <;> exact ⟨h.inv, h.idle, hfresh⟩
  | notFound => exact ⟨h.inv, h.idle, h.fresh⟩
  | scanFails => exact ⟨h.inv, h.idle, h.fresh⟩

theorem Linked.step {s s' : Server} {a : Action} (h : s.Linked) (hstep : s.step a = some s') : s'.Linked := by
  cases (step_cases hstep).2 with
  | connect c =>
    refine ⟨h.inv, h.idle, fun c' hc' => ?_⟩
    simp only [List.mem_append, List.mem_singleton, not_or] at hc'
    exact (Function.update_of_ne hc'.2 _ _).trans (h.fresh c' hc'.1)
  | disconnect c listening opened =>
    refine ⟨h.inv, h.idle, fun c' hc' => ?_⟩
    have hidle := h.fresh c' hc'
    have hne : c' ≠ c := fun he => by simp [he, opened] at hidle
    exact (Function.update_of_ne hne _ _).trans hidle
  | socketGone => exact ⟨h.inv, h.idle, h.fresh⟩
  | quit => exact ⟨h.inv, h.idle, h.fresh⟩
  | main _ hs => exact hs.linked h
  | maker _ hs => exact hs.linked h
  | callback c _ hs => exact hs.linked h
  | game g _ hs => exact hs.linked h

end Server

end PokerEngine
