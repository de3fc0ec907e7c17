/-
How long the callbacks and the games run. However their steps fall among those
of the others, the callbacks of a connection take no more than 17 together, 5 to
open it and 12 to close it, and the thread of a game of `n` no more than
`6 n + 7` (`own_steps_le`): no loop but the match maker's and the operator's goes
on.
-/
import PokerEngine.StepsLeft

namespace PokerEngine

/-- The steps of the callbacks that have not begun. -/
def CallbackPc.toCome : CallbackPc → Nat
  | .idle => 17
  | .openTestStop => 12
  | .lockRegister => 12
  | .register => 12
  | .lockPush => 12
  | .push => 12
  | .opened => 12
  | _ => 0

namespace MatchConductor

/-- The steps left of the thread of a game, the one at which it meets its deleted
conductor with them. -/
def quota (c : MatchConductor) : Nat :=
  if c.pc = .unstarted then 6 * gNumberOfPlayersInGame + 7
  else if c.destroyed = true then if c.pc = .returned then 0 else 1
  else c.stepsLeft

theorem quota_of_live {c : MatchConductor} (hpc : c.pc ≠ .unstarted) (hlive : c.destroyed = false) :
    c.quota = c.stepsLeft := by
  simp [quota, hpc, hlive]

theorem stepsLeft_pos {c : MatchConductor} (h : c.Filled) (hpc : c.pc ≠ .returned) : 0 < c.stepsLeft := by
  have hin := h.inLoop
  unfold stepsLeft
  cases hplace : c.pc with
  | returned => exact absurd hplace hpc
  | push i left p =>
    have hi : i < c.players.length := hin i (by rw [hplace]; rfl)
    simp only [GamePc.stepsLeft]
    omega
  | head =>
    simp only [GamePc.stepsLeft]
    split <;> omega
  | _ => simp [GamePc.stepsLeft]

theorem length_players_step {closed alive : ConnId → Bool} {c c' : MatchConductor} {e : Effect}
    (hstep : c.step closed alive = some (c', e)) : c'.players.length ≤ c.players.length := by
  cases step_cases hstep with
  | moves => exact Nat.le_of_eq List.length_set
  | clears => exact Nat.zero_le _
  | _ => exact Nat.le_refl _

theorem quota_step {closed alive : ConnId → Bool} {c c' : MatchConductor} {e : Effect} (h : c.Filled)
    (hlive : c.destroyed = false) (hstep : c.step closed alive = some (c', e)) (he : ∀ f, e ≠ .fault f) :
    c'.quota < c.quota := by
  obtain ⟨hdestroyed, -, hstarted, -⟩ := step_keeps hstep
  rw [quota_of_live hstarted hlive, quota_of_live (step_started hstep) (hdestroyed.trans hlive)]
  exact stepsLeft_step h hstep he

theorem quota_start {c : MatchConductor} (hpc : c.pc = .unstarted)
    (hplayers : c.players.length ≤ gNumberOfPlayersInGame) : (c.goto .head).quota ≤ c.quota := by
  have hhead : (c.goto .head).stepsLeft ≤ 6 * gNumberOfPlayersInGame + 7 := by
    cases hstop : c.stop <;>
      simp only [stepsLeft, goto, GamePc.stepsLeft, hstop, Bool.false_eq_true, if_true, if_false] <;> omega
  rw [quota, quota, if_pos hpc, if_neg (by simp [goto])]
  split
  · split <;> omega
  · exact hhead

theorem quota_forceFinish (c : MatchConductor) : c.forceFinish.quota ≤ c.quota := by
  have hle := c.stepsLeft_forceFinish
  unfold quota
  split
  next hpc => exact Nat.le_of_eq (if_pos hpc).symm
  next hpc =>
    rw [if_neg (show ¬ c.pc = .unstarted from hpc)]
    split
    next hd => exact Nat.le_of_eq (if_pos (show c.destroyed = true from hd)).symm
    next hd =>
      rw [if_neg (show ¬ c.destroyed = true from hd)]
      exact hle

/-- A conductor that is deleted under its thread is met by it once more at most. -/
theorem quota_destroy {c : MatchConductor} (h : c.destroyed = false → c.Filled) : c.destroy.quota ≤ c.quota := by
  by_cases hpc : c.pc = .unstarted
  · rw [quota, if_pos (show c.destroy.pc = .unstarted from hpc), quota, if_pos hpc]
  · rw [quota, if_neg (show ¬ c.destroy.pc = .unstarted from hpc), if_pos (show c.destroy.destroyed = true from rfl)]
    split
    next => exact Nat.zero_le _
    next hrunning =>
      cases hd : c.destroyed with
      | true => rw [quota, if_neg hpc, if_pos hd, if_neg (show ¬ c.pc = .returned from hrunning)]
      | false => exact quota_of_live hpc hd ▸ stepsLeft_pos (h hd) hrunning

end MatchConductor

namespace MatchConductorManager

/-- No more players than a game has are on their way into one, or in one. -/
structure Fits (m : MatchConductorManager) : Prop where
  argument : m.argument.length ≤ gNumberOfPlayersInGame
  players : ∀ g, (m.conductors g).players.length ≤ gNumberOfPlayersInGame

theorem Fits.initial : initial.Fits := ⟨Nat.zero_le _, fun _ => Nat.zero_le _⟩

theorem Fits.setConductor {m : MatchConductorManager} {g : GameId} {c : MatchConductor} (h : m.Fits)
    (hc : c.players.length ≤ gNumberOfPlayersInGame) : (m.setConductor g c).Fits :=
  ⟨h.argument, forall_setConductor (fun _ c => c.players.length ≤ gNumberOfPlayersInGame) hc h.players⟩

theorem Created.fits {m m' : MatchConductorManager} (hfits : m.Fits) (h : Created m m') : m'.Fits := by
  cases h with
  | moved conductors _ argument => exact ⟨argument ▸ hfits.argument, conductors ▸ hfits.players⟩
  | refused _ conductors _ argument => exact ⟨argument ▸ Nat.zero_le _, conductors ▸ hfits.players⟩
  | deleted g _ _ conductors _ argument =>
    refine ⟨argument ▸ hfits.argument, fun g' => ?_⟩
    rw [conductors, delete_conductors]
    split
    · exact Nat.zero_le _
    · exact hfits.players g'
  | made c construct conductors _ argument =>
    obtain ⟨-, rfl⟩ := construct_ok construct
    exact ⟨argument ▸ Nat.zero_le _, conductors ▸ (hfits.setConductor hfits.argument).players⟩
  | started g _ conductors _ argument =>
    refine ⟨argument ▸ hfits.argument, conductors ▸ (hfits.setConductor ?_).players⟩
    exact hfits.players g

theorem Fits.finish {m m' : MatchConductorManager} (h : m.Fits) (hstep : m.endStep = some (.ok m')) : m'.Fits := by
  obtain ⟨-, hcreate, -, hconductors⟩ := endStep_ok hstep
  have hargument : m'.argument = m.argument := by simp only [MatchConductorManager.argument, hcreate]
  refine ⟨hargument ▸ h.argument, ?_⟩
  rcases hconductors with hc | ⟨g, -, hc⟩
  · exact hc ▸ h.players
  · exact hc ▸ (h.setConductor (c := (m.conductors g).forceFinish) (h.players g)).players

/-- The steps left of the thread of `g`, made or not. -/
def gameLeft (m : MatchConductorManager) (g : GameId) : Nat :=
  if g < m.made then (m.conductors g).quota else 6 * gNumberOfPlayersInGame + 7

theorem gameLeft_mono {m m' : MatchConductorManager} (hmade : m'.made = m.made)
    (hle : ∀ g, (m'.conductors g).quota ≤ (m.conductors g).quota) (g : GameId) : m'.gameLeft g ≤ m.gameLeft g := by
  unfold gameLeft
  rw [hmade]
  split
  · exact hle g
  · exact Nat.le_refl _

/-- `CreateMatchConductor` sets games up and takes them down, and gives none more
steps. -/
theorem Created.gameLeft {m m' : MatchConductorManager} (hfits : m.Fits) (hinv : m.Inv) (hseated : m.Seated)
    (h : Created m m') (g : GameId) : m'.gameLeft g ≤ m.gameLeft g := by
  cases h with
  | moved conductors made => exact gameLeft_mono made (fun g => conductors ▸ Nat.le_refl _) g
  | refused _ conductors made => exact gameLeft_mono made (fun g => conductors ▸ Nat.le_refl _) g
  | deleted g' _ _ conductors made =>
    refine gameLeft_mono made (fun g => ?_) g
    rw [conductors, delete_conductors]
    split
    · exact MatchConductor.quota_destroy (hseated.games g)
    · exact Nat.le_refl _
  | made c construct conductors made =>
    obtain ⟨-, rfl⟩ := construct_ok construct
    unfold MatchConductorManager.gameLeft
    rw [conductors, made]
    by_cases hg : g = m.made
    · subst hg
      simp [MatchConductor.quota]
    · rw [Function.update_of_ne hg]
      by_cases hlt : g < m.made
      · rw [if_pos hlt, if_pos (Nat.lt_succ_of_lt hlt)]
      · have hge : ¬ g < m.made + 1 := fun h => (Nat.lt_succ_iff_lt_or_eq.mp h).elim hlt hg
        rw [if_neg hlt, if_neg hge]
  | started g' create conductors made =>
    refine gameLeft_mono made (fun g => ?_) g
    rw [conductors]
    refine forall_setConductor (fun g c => c.quota ≤ (m.conductors g).quota) ?_ (fun _ => Nat.le_refl _) g
    exact MatchConductor.quota_start (hinv.starting g' create) (hfits.players g')

theorem gameLeft_finish {m m' : MatchConductorManager} (hstep : m.endStep = some (.ok m')) (g : GameId) :
    m'.gameLeft g ≤ m.gameLeft g := by
  obtain ⟨-, -, hmade, hc | ⟨g', -, hc⟩⟩ := endStep_ok hstep
  · exact gameLeft_mono hmade (fun g => hc ▸ Nat.le_refl _) g
  · refine gameLeft_mono hmade (fun g => ?_) g
    rw [hc]
    exact forall_setConductor (fun g c => c.quota ≤ (m.conductors g).quota)
      (m.conductors g').quota_forceFinish (fun _ => Nat.le_refl _) g

end MatchConductorManager

namespace Server

/-- Nothing is left after a fault. -/
def unlessHalted (s : Server) (n : Nat) : Nat := s.halted.elim n fun _ => 0

@[simp] theorem unlessHalted_halt (s : Server) (f : Fault) (n : Nat) : (s.halt f).unlessHalted n = 0 := rfl

theorem unlessHalted_le (s : Server) (n : Nat) : s.unlessHalted n ≤ n := by
  unfold unlessHalted
  cases s.halted with
  | none => exact Nat.le_refl n
  | some f => exact Nat.zero_le n

theorem unlessHalted_of_none {s : Server} (h : s.halted = none) (n : Nat) : s.unlessHalted n = n := by
  rw [unlessHalted, h, Option.elim]

/-! ## Callbacks -/

/-- The steps left of the callbacks of `c`. -/
def callbacksLeft (c : ConnId) (s : Server) : Nat := s.unlessHalted ((s.callbacks c).stepsLeft + (s.callbacks c).toCome)

theorem CallbackWalk.toCome {stop : Bool} {pc pc' : CallbackPc} {op : LockOp} (h : CallbackWalk stop pc op pc') :
    pc'.toCome ≤ pc.toCome := by
  cases h with
  | openTestStop => cases stop <;> decide
  | closeTestStop => cases stop <;> decide
  | notify observer rest => exact Nat.le_refl _
  | scan observer rest => exact Nat.le_refl _
  | _ => decide

theorem CallbackStep.callbacksLeft {s s' : Server} {c : ConnId} (hhalted : s.halted = none)
    (hstep : CallbackStep s c s') : s'.callbacksLeft c < s.callbacksLeft c := by
  unfold Server.callbacksLeft
  rw [unlessHalted_of_none hhalted]
  cases hstep with
  | move pc pc' op d place walk free data =>
    refine Nat.lt_of_le_of_lt (unlessHalted_le _ _) ?_
    have hwalk := walk.stepsLeft
    have hcome := walk.toCome
    simp only [Function.update_self, place]
    omega
  | notFound place => simp [place, CallbackPc.stepsLeft]
  | scanFails observer rest f place => simp [place, CallbackPc.stepsLeft]

theorem CallbackStep.other {s s' : Server} {c c' : ConnId} (hstep : CallbackStep s c s') (hne : c' ≠ c) :
    s'.callbacks c' = s.callbacks c' := by
  cases hstep with
  | move pc pc' op d place walk free data =>
    rw [← (show d.callbacks = s.callbacks by cases data <;> rfl)]
    exact Function.update_of_ne hne _ _
  | _ => rfl

/-- The steps of others leave the callbacks of `c` as they are. -/
theorem callbacksLeft_same {s s' : Server} {c : ConnId} (hhalted : s.halted = none)
    (hsame : s'.callbacks c = s.callbacks c) : s'.callbacksLeft c ≤ s.callbacksLeft c := by
  unfold callbacksLeft
  rw [unlessHalted_of_none hhalted, hsame]
  exact unlessHalted_le _ _

theorem callbacksLeft_step {s s' : Server} {a : Action} (hl : s.Linked) (hstep : s.step a = some s') (c : ConnId) :
    s'.callbacksLeft c + (if a = .run (.callback c) then 1 else 0) ≤ s.callbacksLeft c := by
  obtain ⟨hhalted, hcase⟩ := step_cases hstep
  cases hcase with
  | connect c' listening fresh =>
    simp only [reduceCtorEq, if_false]
    by_cases hc : c = c'
    · subst hc
      refine Nat.le_trans (unlessHalted_le _ _) ?_
      rw [callbacksLeft, unlessHalted_of_none hhalted, hl.fresh c fresh]
      simp only [Function.update_self]
      decide
    · exact callbacksLeft_same hhalted (Function.update_of_ne hc _ _)
  | disconnect c' listening opened =>
    simp only [reduceCtorEq, if_false]
    by_cases hc : c = c'
    · subst hc
      refine Nat.le_trans (unlessHalted_le _ _) ?_
      rw [callbacksLeft, unlessHalted_of_none hhalted, opened]
      simp only [callbackTo, Function.update_self]
      decide
    · exact callbacksLeft_same hhalted (Function.update_of_ne hc _ _)
  | socketGone => exact callbacksLeft_same hhalted rfl
  | quit => exact callbacksLeft_same hhalted rfl
  | main _ hs => exact callbacksLeft_same hhalted (congrFun hs.frame.1 c)
  | maker _ hs => exact callbacksLeft_same hhalted (congrFun hs.frame.2.1 c)
  | callback c' _ hs =>
    by_cases hc : c' = c
    · subst hc
      rw [if_pos rfl]
      exact hs.callbacksLeft hhalted
    · have hne : ¬ Action.run (.callback c') = .run (.callback c) := by simp [hc]
      rw [if_neg hne]
      exact callbacksLeft_same hhalted (hs.other (Ne.symm hc))
  | game g _ hs => exact callbacksLeft_same hhalted (congrFun hs.frame.2.1 c)

/-! ## Games -/

theorem fits_step {s s' : Server} {a : Action} (hl : s.Linked) (h : s.manager.Fits) (hstep : s.step a = some s') :
    s'.manager.Fits := by
  cases (step_cases hstep).2 with
  | main _ hs =>
    cases hs with
    | move pc pc' op d place walk free data => cases data <;> exact ⟨h.argument, h.players⟩
    | finish manager rest place finished => exact h.finish finished
    | fails => exact h
  | maker _ hs =>
    cases hs with
    | move pc pc' op d place walk free data =>
      cases data with
      | quiet => exact h
      | fill => exact h
      | assemble players matchMaker full taken =>
        rw [MatchMaker.assembleGame_of_full full] at taken
        obtain ⟨rfl, -⟩ := Prod.mk.inj (Except.ok.inj taken)
        refine ⟨?_, h.players⟩
        simp [MatchConductorManager.argument, full]
    | create manager place created => exact (MatchConductorManager.createStep_spec hl.inv created).2.fits h
    | _ => exact h
  | callback c _ hs => exact hs.frame.2.2 ▸ h
  | game g _ hs =>
    cases hs with
    | move c e op lobby stepped =>
      exact h.setConductor (Nat.le_trans (MatchConductor.length_players_step stepped) (h.players g))
    | fails => exact h
  | _ => exact h

def gameLeft (g : GameId) (s : Server) : Nat := s.unlessHalted (s.manager.gameLeft g)

theorem gameLeft_le {s s' : Server} {g : GameId} (hhalted : s.halted = none)
    (hle : s'.manager.gameLeft g ≤ s.manager.gameLeft g) : s'.gameLeft g ≤ s.gameLeft g := by
  unfold gameLeft
  rw [unlessHalted_of_none hhalted]
  exact Nat.le_trans (unlessHalted_le _ _) hle

theorem MakerStep.gameLeft {s s' : Server} (h : s.Sound) (hfits : s.manager.Fits) (hstep : MakerStep s s')
    (g : GameId) : s'.manager.gameLeft g ≤ s.manager.gameLeft g := by
  cases hstep with
  | move pc pc' op d place walk free data => cases data <;> exact Nat.le_refl _
  | create manager place created =>
    have hinv := h.locks.linked.inv
    exact (MatchConductorManager.createStep_spec hinv created).2.gameLeft hfits hinv h.seated g
  | _ => exact Nat.le_refl _

theorem MainStep.gameLeft {s s' : Server} (hstep : MainStep s s') (g : GameId) :
    s'.manager.gameLeft g ≤ s.manager.gameLeft g := by
  cases hstep with
  | move pc pc' op d place walk free data => cases data <;> exact Nat.le_refl _
  | finish manager rest place finished => exact MatchConductorManager.gameLeft_finish finished g
  | fails => exact Nat.le_refl _

theorem GameStep.gameLeft {s s' : Server} {g : GameId} (h : s.Sound) (hhalted : s.halted = none)
    (hstep : GameStep s g s') (g' : GameId) :
    s'.gameLeft g' + (if g = g' then 1 else 0) ≤ s.gameLeft g' := by
  have hmade (hpc : (s.manager.conductors g).pc ≠ .unstarted) : g < s.manager.made := by
    by_contra hge
    exact hpc (h.locks.linked.inv.unmade g (Nat.not_lt.mp hge) ▸ rfl)
  cases hstep with
  | move c e op lobby stepped live free data =>
    have hfault : ∀ f, e ≠ .fault f := by cases data <;> simp
    have hlt := MatchConductor.quota_step (h.seated.games g live) live stepped hfault
    by_cases hg : g = g'
    · subst hg
      rw [if_pos rfl, Server.gameLeft, Server.gameLeft, unlessHalted_of_none hhalted]
      refine Nat.lt_of_le_of_lt (unlessHalted_le _ _) ?_
      have hlive : g < s.manager.made := hmade (MatchConductor.step_keeps stepped).2.2.1
      simpa [MatchConductorManager.gameLeft, MatchConductorManager.setConductor, hlive] using hlt
    · rw [if_neg hg]
      refine gameLeft_le hhalted (Nat.le_of_eq ?_)
      simp [MatchConductorManager.gameLeft, MatchConductorManager.setConductor, Ne.symm hg]
  | fails f failed =>
    obtain ⟨-, hdeleted, hrunning⟩ := h.seated.gameStep_error failed
    rw [Server.gameLeft, Server.gameLeft, unlessHalted_of_none hhalted, unlessHalted_halt]
    split
    next hg =>
      subst hg
      unfold MatchConductorManager.gameLeft MatchConductor.quota
      simp only [hdeleted, hrunning, if_true, if_false]
      split_ifs <;> omega
    next => exact Nat.zero_le _

theorem gameLeft_step {s s' : Server} {a : Action} (h : s.Sound) (hfits : s.manager.Fits)
    (hstep : s.step a = some s') (g : GameId) :
    s'.gameLeft g + (if a = .run (.game g) then 1 else 0) ≤ s.gameLeft g := by
  obtain ⟨hhalted, hcase⟩ := step_cases hstep
  cases hcase with
  | main _ hs => exact gameLeft_le hhalted (hs.gameLeft g)
  | maker _ hs => exact gameLeft_le hhalted (hs.gameLeft h hfits g)
  | callback c _ hs => exact gameLeft_le hhalted (hs.frame.2.2 ▸ Nat.le_refl _)
  | game g' _ hs => simpa using hs.gameLeft h hhalted g
  | _ => exact gameLeft_le hhalted (Nat.le_refl _)

/-! ## Runs -/

/-- **Callbacks and games end.** In every run the callbacks of a connection take
at most 17 steps, and the thread of a game with `n` players at most `6 n + 7`. -/
theorem own_steps_le {as : List Action} {s : Server} (hrun : Transition.run step initial as = some s) :
    (∀ c, as.countP (· = .run (.callback c)) ≤ 17) ∧
      ∀ g, as.countP (· = .run (.game g)) ≤ 6 * gNumberOfPlayersInGame + 7 := by
  have hkept : ∀ s a s', s.Sound ∧ s.manager.Fits → Server.step s a = some s' → s'.Sound ∧ s'.manager.Fits :=
    fun s a s' h hs => ⟨h.1.step hs, fits_step h.1.locks.linked h.2 hs⟩
  have hstart : initial.Sound ∧ initial.manager.Fits := ⟨.initial, .initial⟩
  constructor
  · intro c
    have hle : as.countP (fun a => a = .run (.callback c)) ≤ callbacksLeft c initial + 0 * as.countP fun _ => false :=
      Transition.countP_le hkept (fun s a s' h hs => by simpa using callbacksLeft_step h.1.locks.linked hs c) hstart
        hrun
    have hall : callbacksLeft c initial = 17 := rfl
    simpa [hall] using hle
  · intro g
    have hle : as.countP (fun a => a = .run (.game g)) ≤ gameLeft g initial + 0 * as.countP fun _ => false :=
      Transition.countP_le hkept (fun s a s' h hs => by simpa using gameLeft_step h.1 h.2 hs g) hstart hrun
    have hunmade : gameLeft g initial = 6 * gNumberOfPlayersInGame + 7 := rfl
    simpa [hunmade] using hle

/-- A game from its start to its end, and a connection that is closed after it. -/
def wholeRun : List Action :=
  finishingRun ++ List.replicate 16 (.run (.game 0)) ++ .disconnect 0 :: List.replicate 12 (.run (.callback 0))

/-- Both bounds are met. -/
example : wholeRun.countP (· = .run (.callback 0)) = 17 ∧ wholeRun.countP (· = .run (.game 0)) = 25 := by decide

theorem own_steps_le_wholeRun :
    (∀ c, wholeRun.countP (· = .run (.callback c)) ≤ 17) ∧
      ∀ g, wholeRun.countP (· = .run (.game g)) ≤ 6 * gNumberOfPlayersInGame + 7 := by
  have hgoes : (Transition.run step initial wholeRun).isSome = true := by decide +kernel
  obtain ⟨s, hrun⟩ := Option.isSome_iff_exists.mp hgoes
  exact own_steps_le hrun

end Server

end PokerEngine
