/-
The process exits. Once `End` has told the match maker to stop, the threads have
a bounded number of steps left, apart from what new connections and closures add,
and where none of them can step the process is at its end (`exits`).
-/
import PokerEngine.StepsLeft
import PokerEngine.Teardown

namespace PokerEngine

open Slot (full)

/-- The main thread is in `End`, past the setting of the match maker's flag. -/
def MainPc.stopping : MainPc → Bool
  | .makerJoin _ => true
  | .makerResetStop _ => true
  | .ending rest => .matchMaker ∉ rest
  | .serverStop _ => true
  | .managerEnd _ => true
  | .ended => true
  | _ => false

namespace Server

/-- A thread's step. -/
def Action.runs : Action → Bool
  | .run _ => true
  | _ => false

/-- What the WebSocket library calls the server for. -/
def Action.calls : Action → Bool
  | .connect _ => true
  | .disconnect _ => true
  | _ => false

/-- The main thread joins the match maker only after it has told it to stop. -/
def Told (s : Server) : Prop := ∀ rest, s.main = .makerJoin rest → s.matchMaker.stop = true

theorem Told.initial : initial.Told := fun _ h => absurd h (by change ¬ MainPc.lockStart = _; simp)

theorem fill_stop (lobby : Lobby) (m : MatchMaker) : (MatchMaker.fill lobby m).2.stop = m.stop := by
  unfold MatchMaker.fill
  split
  · rfl
  · split <;> rfl

theorem MakerStep.stop {s s' : Server} (hstep : MakerStep s s') : s'.matchMaker.stop = s.matchMaker.stop := by
  cases hstep with
  | move pc pc' op d place walk free data =>
    cases data with
    | quiet => rfl
    | fill => exact fill_stop s.lobby s.matchMaker
    | assemble players matchMaker full taken =>
      rw [MatchMaker.assembleGame_of_full full] at taken
      obtain ⟨-, rfl⟩ := Prod.mk.inj (Except.ok.inj taken)
      rfl
  | _ => rfl

theorem CallbackStep.stop {s s' : Server} {c : ConnId} (hstep : CallbackStep s c s') :
    s'.matchMaker.stop = s.matchMaker.stop := by
  cases hstep with
  | move pc pc' op d place walk free data =>
    cases data with
    | scanBuffer rest n matchMaker scanned =>
      rw [MatchMaker.onConnectionClosed_ok scanned]
    | _ => rfl
  | _ => rfl

theorem Told.same {s s' : Server} (h : s.Told) (hmain : s'.main = s.main)
    (hstop : s'.matchMaker.stop = s.matchMaker.stop) : s'.Told := fun rest hrest =>
  hstop.trans (h rest (hmain ▸ hrest))

theorem Told.step {s s' : Server} {a : Action} (h : s.Told) (hstep : s.step a = some s') : s'.Told := by
  cases (step_cases hstep).2 with
  | connect => exact h.same rfl rfl
  | disconnect => exact h.same rfl rfl
  | socketGone => exact h.same rfl rfl
  | quit => exact fun rest hrest => absurd hrest (by simp [mainTo])
  | maker _ hs => exact h.same hs.frame.1 hs.stop
  | callback c _ hs => exact h.same hs.frame.1 hs.stop
  | game g _ hs => cases hs <;> exact h.same rfl rfl
  | main _ hs =>
    cases hs with
    | move pc pc' op d place walk free data =>
      intro rest hrest
      cases walk with
      | endMaker rest' =>
        cases data
        rfl
      | _ => simp at hrest
    | finish manager rest place finished => exact h.same rfl rfl
    | fails => exact h.same rfl rfl

/-- While the match maker still runs, the main thread joins it. -/
theorem AtPlace.joining {s : Server} (h : s.AtPlace) (hstopping : s.main.stopping = true)
    (hmaker : s.maker ≠ .returned) : s.main = .makerJoin [.server, .matchConductorManager] := by
  have hplace := h.place
  generalize s.main = pc at hplace hstopping
  cases hplace with
  | makerJoin => rfl
  | makerResetStop maker | endServer maker | serverStop maker | endManager maker => exact absurd maker hmaker
  | managerEnd maker | unlockEnd maker | ended maker => exact absurd maker hmaker
  | _ => simp [MainPc.stopping] at hstopping

/-- The steps that all threads together have left while the program ends: those
of the main thread, of the match maker, of the games, made and to be made, of the
callbacks, and of the destruction of the pairs; and one for a fault. -/
def stepsLeft (s : Server) : Nat :=
  s.halted.elim 1 (fun _ => 0) + s.main.stepsLeft s.manager.matchConductors.length +
    s.manager.finish.stepsLeft s.manager.matchConductors.length +
    s.maker.stepsLeft s.manager.matchConductors.length + s.manager.callLeft +
    2 * s.manager.matchConductors.length +
    Transition.tally s.clients.toFinset CallbackPc.stepsLeft s.callbacks

theorem stepsLeft_halt {s : Server} {f : Fault} (h : s.halted = none) : (s.halt f).stepsLeft < s.stepsLeft := by
  simp only [stepsLeft, halt, h, Option.elim]
  omega

theorem CallbackStep.stepsLeft {s s' : Server} {c : ConnId} (hl : s.Linked) (hhalted : s.halted = none)
    (hstep : CallbackStep s c s') : s'.stepsLeft < s.stepsLeft := by
  cases hstep with
  | move pc pc' op d place walk free data =>
    have hc : c ∈ s.clients.toFinset := by
      rw [List.mem_toFinset]
      by_contra hfresh
      rw [hl.fresh c hfresh] at place
      subst place
      cases walk
    have hsum : Transition.tally s.clients.toFinset CallbackPc.stepsLeft (Function.update s.callbacks c pc') +
        (s.callbacks c).stepsLeft =
          Transition.tally s.clients.toFinset CallbackPc.stepsLeft s.callbacks + pc'.stepsLeft :=
      Transition.tally_update hc pc'
    rw [place] at hsum
    have hwalk := walk.stepsLeft
    have hrest : d.halted = s.halted ∧ d.main = s.main ∧ d.manager = s.manager ∧ d.maker = s.maker ∧
        d.clients = s.clients := by
      cases data <;> exact ⟨rfl, rfl, rfl, rfl, rfl⟩
    obtain ⟨hd, hmain, hmanager, hmaker, hclients⟩ := hrest
    simp only [Server.stepsLeft, hd, hmain, hmanager, hmaker, hclients]
    omega
  | notFound => exact stepsLeft_halt hhalted
  | scanFails => exact stepsLeft_halt hhalted

theorem GameStep.stepsLeft {s s' : Server} {g : GameId} (h : s.Sound) (hhalted : s.halted = none)
    (hstep : GameStep s g s') : s'.stepsLeft < s.stepsLeft := by
  cases hstep with
  | move c e op lobby stepped live free data =>
    have hmade : g < s.manager.made := by
      by_contra hge
      rw [h.locks.linked.inv.unmade g (Nat.not_lt.mp hge)] at stepped
      simp [MatchConductor.step, MatchConductorManager.unmade] at stepped
    have hfault : ∀ f, e ≠ .fault f := by cases data <;> simp
    have hlt := MatchConductor.stepsLeft_step (h.seated.games g live) stepped hfault
    have hsum := MatchConductorManager.gamesLeft_setConductor (c := c) hmade
    simp only [Server.stepsLeft, MatchConductorManager.callLeft]
    simp only [MatchConductorManager.setConductor] at hsum ⊢
    omega
  | fails => exact stepsLeft_halt hhalted

theorem MakerStep.stepsLeft {s s' : Server} (h : s.Living) (htold : s.Told) (hstopping : s.main.stopping = true)
    (hhalted : s.halted = none) (hstep : MakerStep s s') : s'.stepsLeft < s.stepsLeft := by
  have hl := h.sound.locks.linked
  have hmain (hmaker : s.maker ≠ .returned) : s.main = .makerJoin [.server, .matchConductorManager] :=
    h.atPlace.joining hstopping hmaker
  cases hstep with
  | move pc pc' op d place walk free data =>
    have hmaker : s.maker ≠ .returned := by rw [place]; cases walk <;> simp
    rw [htold _ (hmain hmaker)] at walk
    have hwalk := walk.stepsLeft s.manager.matchConductors.length
    cases data with
    | quiet =>
      simp only [Server.stepsLeft, place]
      omega
    | fill =>
      simp only [Server.stepsLeft, place]
      omega
    | assemble players matchMaker full taken =>
      have hidle : s.manager.create = .idle := hl.idle (by simp [place])
      have hplayers : players.length = 3 := by
        rw [MatchMaker.assembleGame_of_full full] at taken
        obtain ⟨rfl, -⟩ := Prod.mk.inj (Except.ok.inj taken)
        rw [List.length_map, full]
        rfl
      simp only [Server.stepsLeft, MatchConductorManager.callLeft, place, hidle, CreatePc.stepsLeft, CreatePc.owes,
        MakerPc.stepsLeft, List.length_map, hplayers, MatchConductorManager.gamesLeft]
      omega
  | create manager place created =>
    have hmaker : s.maker ≠ .returned := by simp [place]
    have hcall := (MatchConductorManager.createStep_callLeft hl.inv created).2
    have hfinish : ∀ n, s.manager.finish.stepsLeft n = 0 := fun n => by
      rcases h.sound.locks.ending (by simp [hmain hmaker]) with hf | hf <;> rw [hf] <;> rfl
    simp only [Server.stepsLeft, (createStep_lock created).1, hfinish, hmain hmaker, place, MakerPc.stepsLeft,
      MainPc.stepsLeft, endSteps]
    omega
  | created place =>
    simp only [Server.stepsLeft, makerTo, place, MakerPc.stepsLeft]
    omega
  | assembleFails => exact stepsLeft_halt hhalted
  | createFails => exact stepsLeft_halt hhalted

theorem MainStep.stepsLeft {s s' : Server} (hstopping : s.main.stopping = true)
    (hhalted : s.halted = none) (hstep : MainStep s s') : s'.stepsLeft < s.stepsLeft := by
  cases hstep with
  | move pc pc' op d place walk free data =>
    rw [place] at hstopping
    cases walk with
    | lockStart | unlockStart | start | lockEnd | endMaker => simp [MainPc.stopping] at hstopping
    | endManager rest =>
      cases data
      simp only [Server.stepsLeft, place, MainPc.stepsLeft, endSteps, EndPc.stepsLeft, MatchConductorManager.callLeft,
        MatchConductorManager.gamesLeft]
      omega
    | _ =>
      cases data
      simp only [Server.stepsLeft, place, MainPc.stepsLeft, endSteps]
      omega
  | finish manager rest place finished =>
    obtain ⟨hslots, hcreate, -⟩ := MatchConductorManager.endStep_ok finished
    obtain ⟨hlt, hgames⟩ := MatchConductorManager.endStep_stepsLeft finished
    simp only [Server.stepsLeft, hslots, hcreate, MatchConductorManager.callLeft]
    omega
  | fails => exact stepsLeft_halt hhalted

/-- The main thread stays in `End`. -/
theorem MainStep.stopping {s s' : Server} (h : s.Living) (hstopping : s.main.stopping = true)
    (hstep : MainStep s s') : s'.main.stopping = true := by
  cases hstep with
  | move pc pc' op d place walk free data =>
    rw [place] at hstopping
    have hplace := h.atPlace.place
    rw [place] at hplace
    cases walk with
    | lockStart | unlockStart | start | lockEnd | endMaker => simp [MainPc.stopping] at hstopping
    | _ => cases hplace; rfl
  | finish => exact hstopping
  | fails => exact hstopping

theorem lowered {n m : Nat} (t : Thread) (h : n < m) :
    n + (if (Action.run t).runs then 1 else 0) ≤ m + if (Action.run t).calls then 12 else 0 := by
  simp only [Action.runs, Action.calls, if_true, Bool.false_eq_true, if_false]
  omega

/-- **While the program ends, every step of a thread brings the end nearer**; a
new connection or closure puts it off by a callback's steps. -/
theorem stepsLeft_step {s s' : Server} {a : Action} (h : s.Living) (htold : s.Told)
    (hstopping : s.main.stopping = true) (hstep : s.step a = some s') :
    s'.main.stopping = true ∧
      s'.stepsLeft + (if a.runs then 1 else 0) ≤ s.stepsLeft + if a.calls then 12 else 0 := by
  have hl := h.sound.locks.linked
  obtain ⟨hhalted, hcase⟩ := step_cases hstep
  cases hcase with
  | connect c listening fresh =>
    refine ⟨hstopping, ?_⟩
    have hclients : (s.clients ++ [c]).toFinset = insert c s.clients.toFinset := by
      ext c'
      simp
    have hsum : Transition.tally (insert c s.clients.toFinset) CallbackPc.stepsLeft
        (Function.update s.callbacks c .openTestStop) =
          Transition.tally s.clients.toFinset CallbackPc.stepsLeft s.callbacks + CallbackPc.openTestStop.stepsLeft :=
      Transition.tally_insert (by rwa [List.mem_toFinset]) CallbackPc.openTestStop
    rw [← hclients] at hsum
    simp only [Server.stepsLeft, Action.runs, Action.calls, Bool.false_eq_true, if_false, if_true]
    have hstart : CallbackPc.openTestStop.stepsLeft = 5 := rfl
    omega
  | disconnect c listening opened =>
    refine ⟨hstopping, ?_⟩
    have hc : c ∈ s.clients := by
      by_contra hfresh
      rw [hl.fresh c hfresh] at opened
      cases opened
    have hsum : Transition.tally s.clients.toFinset CallbackPc.stepsLeft
        (Function.update s.callbacks c .closeTestStop) + (s.callbacks c).stepsLeft =
          Transition.tally s.clients.toFinset CallbackPc.stepsLeft s.callbacks + CallbackPc.closeTestStop.stepsLeft :=
      Transition.tally_update (List.mem_toFinset.mpr hc) CallbackPc.closeTestStop
    have hstart : CallbackPc.closeTestStop.stepsLeft = 12 := rfl
    simp only [Server.stepsLeft, callbackTo, Action.runs, Action.calls, Bool.false_eq_true, if_false, if_true]
    omega
  | socketGone c => exact ⟨hstopping, Nat.le_refl _⟩
  | quit waiting => simp [waiting, MainPc.stopping] at hstopping
  | main _ hs => exact ⟨hs.stopping h hstopping, lowered _ (hs.stepsLeft hstopping hhalted)⟩
  | maker _ hs => exact ⟨hs.frame.1 ▸ hstopping, lowered _ (hs.stepsLeft h htold hstopping hhalted)⟩
  | callback c _ hs => exact ⟨hs.frame.1 ▸ hstopping, lowered _ (hs.stepsLeft hl hhalted)⟩
  | game g _ hs => exact ⟨hs.frame.1 ▸ hstopping, lowered _ (hs.stepsLeft h.sound hhalted)⟩

/-- After `End` the mutexes that the destructors take are free. -/
theorem Over.free {s : Server} (h : s.Over) (hended : s.main = .ended) {m : Mutex} (hconductors : m ≠ .conductors)
    (hlobby : m ≠ .lobby) : s.locks m = none := by
  by_contra hheld
  obtain ⟨t, ht⟩ := Option.ne_none_iff_exists'.mp hheld
  rw [← holder_of_ne hconductors] at ht
  have hlocks := h.living.sound.locks
  have hm := (hlocks.owned m t).mp ht
  cases t with
  | main =>
    rcases List.mem_append.mp hm with hm | hm
    · simp [hended, MainPc.held] at hm
    · rcases hlocks.ending (by simp [hended]) with hf | hf <;> simp [hf, EndPc.held] at hm
  | maker =>
    rcases List.mem_append.mp hm with hm | hm
    · simp [h.maker, MakerPc.held] at hm
    · simp [h.idle, CreatePc.held] at hm
  | callback c =>
    have hrest := h.quiet.atRest c
    simp only [held] at hm
    cases hpc : s.callbacks c <;> simp_all [CallbackPc.held, CallbackPc.atRest]
  | game g =>
    simp only [held] at hm
    cases hpc : (s.manager.conductors g).pc <;> simp_all [GamePc.held]

end Server

namespace Process

/-- The steps left of the destructors; those at the pairs apart, all but one. -/
def todoLeft : List Destruction → Nat
  | [] => 0
  | .joinFirst :: todo => todoLeft todo + 2
  | _ :: todo => todoLeft todo + 1

def stepsLeft (p : Process) : Nat := p.server.stepsLeft + todoLeft p.todo

theorem Destroys.stepsLeft {p p' : Process} (h : p.server.Over) (hended : p.server.main = .ended)
    (hstep : p.Destroys p') : p'.stepsLeft < p.stepsLeft := by
  cases hstep with
  | manager o todo head | closure o todo head | thread todo head | members c todo head =>
    simp only [Process.stepsLeft, head, todoLeft]
    omega
  | joined todo head none =>
    simp only [Process.stepsLeft, head, todoLeft]
    omega
  | join todo slot slots head first returned =>
    simp only [Process.stepsLeft, head, todoLeft]
    omega
  | delete todo slot slots head first returned =>
    obtain ⟨hmade, hcreate, hfinish, -, hconductors⟩ :=
      MatchConductorManager.withoutFirst_frame p.server.manager slot slots
    have hgames := MatchConductorManager.gamesLeft_delete p.server.manager slot.conductor
    have hidle : ∀ n, p.server.manager.finish.stepsLeft n = 0 := fun n => by
      rcases h.living.sound.locks.ending (by simp [hended]) with hf | hf <;> rw [hf] <;> rfl
    have hslots : (p.server.manager.withoutFirst slot slots).matchConductors = slots := rfl
    have hleft : (p.server.manager.withoutFirst slot slots).gamesLeft =
        (p.server.manager.delete slot.conductor).gamesLeft := by
      unfold MatchConductorManager.gamesLeft
      rw [hmade, hconductors]
      cases slot.conductor <;> rfl
    simp only [Process.stepsLeft, Server.stepsLeft, Server.withoutFirst, hslots, first, hcreate, hfinish, hidle,
      h.maker, h.idle, hended, head, MatchConductorManager.callLeft, hleft, MainPc.stepsLeft, MakerPc.stepsLeft,
      CreatePc.stepsLeft, CreatePc.owes, List.length_cons, todoLeft]
    omega

/-- The destructors leave the main thread and the match maker alone. -/
theorem Destroys.frame {p p' : Process} (hstep : p.Destroys p') :
    p'.server.main = p.server.main ∧ p'.server.matchMaker = p.server.matchMaker := by
  cases hstep <;> exact ⟨rfl, rfl⟩

theorem Inv.stepsLeft_step {p p' : Process} {a : Server.Action} (h : p.Inv) (htold : p.server.Told)
    (hstopping : p.server.main.stopping = true) (hstep : p.step a = some p') :
    p'.server.main.stopping = true ∧
      p'.stepsLeft + (if a.runs then 1 else 0) ≤ p.stepsLeft + if a.calls then 12 else 0 := by
  rcases h.step_cases hstep with ⟨rfl, hended, hdestroys⟩ | ⟨s, hs, rfl⟩
  · have hlt := hdestroys.stepsLeft (h.living.over hended) hended
    exact ⟨by rw [hdestroys.frame.1]; exact hstopping, Server.lowered _ hlt⟩
  · obtain ⟨hstill, hle⟩ := Server.stepsLeft_step h.living htold hstopping hs
    refine ⟨hstill, ?_⟩
    simp only [Process.stepsLeft]
    omega

end Process

end PokerEngine
