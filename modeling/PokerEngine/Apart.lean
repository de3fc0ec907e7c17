/-
No connection is held twice, not even while the program ends: `Ownership` is for
the time before the operator quits, and says besides that no open connection is
lost. From then on games let go of open players (`Finish` keeps them out of the
lobby, and clears its vector), but nothing comes to be at two places
(`apart_always`).
-/
import PokerEngine.Ownership

namespace PokerEngine

open Custody (Exclusive Held Handover)

namespace MatchConductor

/-- What a step of a game does to its players, stopped or not: one goes into the
lobby, or none does. -/
theorem seated_step {closed alive : ConnId → Bool} {c c' : MatchConductor} {e : Effect}
    (hstep : c.step closed alive = some (c', e)) :
    (∃ value, e = .push value ∧ c.seated.Perm (value :: c'.seated)) ∨
      (∀ value, e ≠ .push value) ∧ c'.seated.Subperm c.seated := by
  have hquiet {pc pc' : GamePc} (place : c.pc = pc) (hvalue : pc'.value = pc.value) :
      (c.goto pc').seated.Subperm c.seated := by
    rw [seated_goto (place ▸ hvalue)]
  cases step_cases hstep with
  | pushes i left p place =>
    refine .inl ⟨p, rfl, ?_⟩
    simp [seated, goto, place, GamePc.value]
  | fails => exact .inr ⟨by simp, .refl _⟩
  | greets i p place | notifies i left p place =>
    refine .inr ⟨by simp, ?_⟩
    simp [seated, goto, send, place, GamePc.value, List.Subperm.refl]
  | leaves place => exact .inr ⟨by simp, by simp [seated, place, GamePc.value, List.Subperm.refl]⟩
  | moves i left p place player =>
    refine .inr ⟨by simp, List.Perm.subperm ?_⟩
    simpa [seated, place, GamePc.value] using reduceOption_set_none player
  | clears left place => exact .inr ⟨by simp, by simp [seated, GamePc.value]⟩
  | setsStop left place =>
    refine .inr ⟨by simp, ?_⟩
    cases left <;> simp [seated, place, GamePc.value, List.Subperm.refl]
  | stopped place | begins place | welcomed _ place | misses _ _ place | wakes place | finished _ _ place
  | skips _ _ _ place | meets _ _ _ place | cannotNotify _ _ _ place | keeps _ _ place | locks _ _ _ place =>
    exact .inr ⟨by simp, hquiet place rfl⟩

end MatchConductor

namespace Server

/-- No connection is held twice, and only those that `OnNewConnectionEstablished`
has registered are held. -/
structure Apart (s : Server) : Prop where
  exclusive : Exclusive s.playersAt
  registered : ∀ c, Held s.playersAt c → (s.callbacks c).registered = true

theorem Apart.initial : initial.Apart := ⟨Ownership.initial.exclusive, Ownership.initial.registered⟩

variable {s s' : Server}

theorem Apart.handover (h : s.Apart) (hh : Handover (fun _ => True) s.playersAt s'.playersAt)
    (hregistered : ∀ c, (s.callbacks c).registered = true → (s'.callbacks c).registered = true) : s'.Apart :=
  ⟨hh.exclusive h.exclusive, fun c hc => hregistered c (h.registered c (hh.origin hc))⟩

/-- Connections are let go of, or stay where they are. -/
theorem Apart.release (h : s.Apart) (hsub : ∀ p, (s'.playersAt p).Subperm (s.playersAt p))
    (hregistered : ∀ c, (s.callbacks c).registered = true → (s'.callbacks c).registered = true) : s'.Apart :=
  h.handover (.release hsub fun _ _ _ hlost => absurd trivial hlost) hregistered

theorem Apart.same (h : s.Apart) (hplayers : ∀ p, s'.playersAt p = s.playersAt p)
    (hcallbacks : s'.callbacks = s.callbacks) : s'.Apart :=
  h.release (fun p => hplayers p ▸ .refl _) fun c hc => by rwa [hcallbacks]

/-! ## Callbacks -/

/-- A connection comes in, held nowhere so far. -/
theorem Apart.opened {c : ConnId} (h : s.Apart) (hplace : s.callbacks c = .register)
    (hself : s'.playersAt (.opening c) = [c]) (hothers : ∀ p, p ≠ .opening c → s'.playersAt p = s.playersAt p)
    (hcallbacks : s'.callbacks = Function.update s.callbacks c .lockPush) : s'.Apart := by
  have hfresh : ¬ Held s.playersAt c := fun hc => by
    have hregistered := h.registered c hc
    simp [hplace, CallbackPc.registered] at hregistered
  have hbefore : s.playersAt (.opening c) = [] := by simp [playersAt, hplace, CallbackPc.between]
  refine ⟨h.exclusive.receive hfresh (by rw [hbefore, hself]) hothers, fun c' hc' => ?_⟩
  obtain ⟨p, hp⟩ := hc'
  rw [hcallbacks]
  by_cases hopening : p = .opening c
  · rw [hopening, hself] at hp
    rw [List.mem_singleton.mp hp, Function.update_self]
    rfl
  · exact registered_update (fun _ => rfl) c' (h.registered c' ⟨p, hothers p hopening ▸ hp⟩)

theorem CallbackStep.apart {c : ConnId} (h : s.Apart) (hstep : CallbackStep s c s') : s'.Apart := by
  cases hstep with
  | move pc pc' op d place walk free data =>
    have hregistered : ∀ c', (s.callbacks c').registered = true →
        (Function.update s.callbacks c pc' c').registered = true :=
      registered_update fun hr => CallbackWalk.registered walk (place ▸ hr)
    have hbetween (hregister : pc ≠ .register) (hpush : pc ≠ .push) (c' : ConnId) :
        (Function.update s.callbacks c pc' c').between = (s.callbacks c').between :=
      between_update (place.symm ▸ CallbackWalk.between walk hregister hpush) c'
    cases data with
    | register =>
      cases walk
      refine h.opened (c := c) place (by simp [playersAt, CallbackPc.between]) (fun p hp => ?_) rfl
      cases p with
      | opening c' =>
        have hc : c' ≠ c := fun he => hp (he ▸ rfl)
        simp only [playersAt, Function.update_of_ne hc]
      | _ => rfl
    | push =>
      cases walk
      refine h.handover (.transfer (.opening c) .lobby [c] (by simp) ?_ ?_ fun p hopening hlobby => ?_) hregistered
      · simp [playersAt, place, CallbackPc.between]
      · simp [playersAt, Lobby.push]
      · cases p with
        | opening c' =>
          have hc : c' ≠ c := fun he => hopening (he ▸ rfl)
          simp only [playersAt, Function.update_of_ne hc]
        | lobby => exact absurd rfl hlobby
        | _ => rfl
    | quiet _ hq =>
      have hb := hbetween (fun he => by simp [he, CallbackPc.quiet] at hq) fun he => by
        simp [he, CallbackPc.quiet] at hq
      refine h.release (fun p => ?_) hregistered
      cases p with
      | opening c' => simp only [playersAt, hb c', List.Subperm.refl]
      | _ => exact .refl _
    | setClosed | erase =>
      have hb := hbetween (by simp) (by simp)
      refine h.release (fun p => ?_) hregistered
      cases p with
      | opening c' => simp only [playersAt, hb c', List.Subperm.refl]
      | _ => exact .refl _
    | scanLobby rest n lobby scanned =>
      have hb := hbetween (by simp) (by simp)
      refine h.release (fun p => ?_) hregistered
      cases p with
      | opening c' => simp only [playersAt, hb c', List.Subperm.refl]
      | lobby =>
        simp only [playersAt, Lobby.onConnectionClosed_ok scanned]
        exact (List.filter_sublist.map Waiting.id).subperm
      | _ => exact .refl _
    | scanBuffer rest n matchMaker scanned =>
      have hb := hbetween (by simp) (by simp)
      refine h.release (fun p => ?_) hregistered
      cases p with
      | opening c' => simp only [playersAt, hb c', List.Subperm.refl]
      | buffer =>
        simp only [playersAt, MatchMaker.onConnectionClosed_ok scanned]
        exact (List.filter_sublist.map Waiting.id).subperm
      | _ => exact .refl _
  | notFound => exact h.same (fun p => by cases p <;> rfl) rfl
  | scanFails => exact h.same (fun p => by cases p <;> rfl) rfl

/-! ## The match maker and the games -/

/-- The manager's step leaves the other places as they are. -/
theorem Apart.manage {manager : MatchConductorManager} (h : s.Apart)
    (hargument : manager.argument.reduceOption.Subperm s.manager.argument.reduceOption)
    (hseated : ∀ g, (manager.conductors g).seated.Subperm (s.manager.conductors g).seated) :
    ({ s with manager } : Server).Apart := by
  refine h.release (fun p => ?_) fun _ => id
  cases p with
  | handOver => exact hargument
  | game g => exact hseated g
  | _ => exact .refl _

theorem Apart.created {manager : MatchConductorManager} (h : s.Apart) (hinv : s.manager.Inv)
    (hcreated : s.manager.createStep = some (.ok manager)) : ({ s with manager } : Server).Apart := by
  cases (MatchConductorManager.createStep_spec hinv hcreated).2 with
  | moved conductors made argument =>
    exact h.manage (argument ▸ .refl _) fun g => conductors ▸ .refl _
  | refused _ conductors made argument =>
    exact h.manage (argument ▸ (List.nil_sublist _).subperm) fun g => conductors ▸ .refl _
  | deleted g _ _ conductors made argument =>
    refine h.manage (argument ▸ .refl _) fun g' => ?_
    rw [conductors, MatchConductorManager.delete_conductors]
    split
    · exact ((List.nil_sublist _).append (List.Sublist.refl _)).subperm
    · exact .refl _
  | made c construct conductors made argument =>
    obtain ⟨-, rfl⟩ := MatchConductorManager.construct_ok construct
    have hbefore := hinv.unmade s.manager.made (Nat.le_refl _)
    refine h.handover (.transfer .handOver (.game s.manager.made) s.manager.argument.reduceOption (by simp)
      ?_ ?_ fun p hhandOver hgame => ?_) fun _ => id
    · simp [playersAt, argument]
    · simp [playersAt, conductors, hbefore, MatchConductor.seated, MatchConductorManager.unmade, GamePc.value]
    · cases p with
      | handOver => exact absurd rfl hhandOver
      | game g =>
        have hg : g ≠ s.manager.made := fun he => hgame (he ▸ rfl)
        simp only [playersAt, conductors, Function.update_of_ne hg]
      | _ => rfl
  | started g create conductors made argument =>
    refine h.manage (argument ▸ .refl _) fun g' => ?_
    rw [conductors]
    by_cases hg : g' = g
    · subst hg
      rw [Function.update_self, MatchConductor.seated_goto (by rw [hinv.starting g' create]; rfl)]
    · rw [Function.update_of_ne hg]

theorem MakerStep.apart (hl : s.Linked) (h : s.Apart) (hstep : MakerStep s s') : s'.Apart := by
  cases hstep with
  | move pc pc' op d place walk free data =>
    cases data with
    | quiet => exact h.same (fun p => by cases p <;> rfl) rfl
    | fill =>
      refine h.handover ?_ fun _ => id
      unfold MatchMaker.fill
      split
      next => exact .same fun p => by cases p <;> exact .refl _
      next front rest hdata =>
        split
        next => exact .same fun p => by cases p <;> exact .refl _
        next =>
          refine .transfer .lobby .buffer [front.id] (by simp) ?_ ?_ fun p hlobby hbuffer => ?_
          · simp [playersAt, hdata]
          · simp [playersAt]
          · cases p with
            | lobby => exact absurd rfl hlobby
            | buffer => exact absurd rfl hbuffer
            | _ => rfl
    | assemble players matchMaker full taken =>
      have hidle : s.manager.create = .idle := hl.idle (by rw [place]; cases walk; simp)
      rw [MatchMaker.assembleGame_of_full full, Except.ok.injEq, Prod.mk.injEq] at taken
      obtain ⟨rfl, rfl⟩ := taken
      refine h.handover (.transfer .buffer .handOver (s.matchMaker.intermediateBuffer.map Waiting.id) (by simp)
        ?_ ?_ fun p hbuffer hhandOver => ?_) fun _ => id
      · simp [playersAt]
      · simp [playersAt, MatchConductorManager.argument, hidle, List.reduceOption]
      · cases p with
        | buffer => exact absurd rfl hbuffer
        | handOver => exact absurd rfl hhandOver
        | _ => rfl
  | create manager place created => exact h.created hl.inv created
  | _ => exact h.same (fun p => by cases p <;> rfl) rfl

theorem GameStep.apart {g : GameId} (h : s.Apart) (hstep : GameStep s g s') : s'.Apart := by
  cases hstep with
  | move c e op lobby stepped live free data =>
    rcases MatchConductor.seated_step stepped with ⟨value, rfl, hpushed⟩ | ⟨hpush, hsub⟩
    · cases data
      refine h.handover (.transfer (.game g) .lobby [value] (by simp) ?_ ?_ fun p hgame hlobby => ?_) fun _ => id
      · simpa [playersAt, MatchConductorManager.setConductor] using hpushed
      · simp [playersAt, Lobby.push]
      · cases p with
        | game g' =>
          have hg : g' ≠ g := fun he => hgame (he ▸ rfl)
          simp [playersAt, MatchConductorManager.setConductor, hg]
        | lobby => exact absurd rfl hlobby
        | _ => rfl
    · have hlobby : lobby = s.lobby := by
        cases data with
        | push value => exact absurd rfl (hpush value)
        | _ => rfl
      subst hlobby
      refine h.release (fun p => ?_) fun _ => id
      cases p with
      | game g' =>
        by_cases hg : g' = g
        · subst hg
          simpa [playersAt, MatchConductorManager.setConductor] using hsub
        · simpa [playersAt, MatchConductorManager.setConductor, hg] using List.Subperm.refl _
      | _ => exact .refl _
  | fails => exact h.same (fun p => by cases p <;> rfl) rfl

theorem MainStep.apart (h : s.Apart) (hstep : MainStep s s') : s'.Apart := by
  cases hstep with
  | move pc pc' op d place walk free data => cases data <;> exact h.same (fun p => by cases p <;> rfl) rfl
  | finish manager rest place finished =>
    obtain ⟨-, hcreate, -, hconductors⟩ := MatchConductorManager.endStep_ok finished
    have hargument : manager.argument = s.manager.argument := by
      simp only [MatchConductorManager.argument, hcreate]
    refine h.manage (hargument ▸ .refl _) fun g => ?_
    rcases hconductors with hc | ⟨g', -, hc⟩
    · exact hc ▸ .refl _
    · rw [hc]
      by_cases hg : g = g'
      · subst hg
        rw [Function.update_self]
        exact .refl _
      · rw [Function.update_of_ne hg]
  | fails => exact h.same (fun p => by cases p <;> rfl) rfl

/-! ## Runs -/

/-- The thread of a connection turns to a callback. -/
theorem Apart.called (c : ConnId) (pc : CallbackPc) (h : s.Apart)
    (hbetween : pc.between = (s.callbacks c).between)
    (hregistered : (s.callbacks c).registered = true → pc.registered = true)
    (hcallbacks : s'.callbacks = Function.update s.callbacks c pc) (hlobby : s'.lobby = s.lobby)
    (hmatchMaker : s'.matchMaker = s.matchMaker) (hmanager : s'.manager = s.manager) : s'.Apart := by
  refine h.release (fun p => ?_) fun c' hc' => hcallbacks ▸ registered_update hregistered c' hc'
  cases p with
  | opening c' => simp only [playersAt, hcallbacks, between_update hbetween c', List.Subperm.refl]
  | lobby => simp only [playersAt, hlobby, List.Subperm.refl]
  | buffer => simp only [playersAt, hmatchMaker, List.Subperm.refl]
  | handOver => simp only [playersAt, hmanager, List.Subperm.refl]
  | game g => simp only [playersAt, hmanager, List.Subperm.refl]

theorem Apart.step {a : Action} (hl : s.Linked) (h : s.Apart) (hstep : s.step a = some s') : s'.Apart := by
  cases (step_cases hstep).2 with
  | connect c listening fresh =>
    have hidle := hl.fresh c fresh
    exact Apart.called c .openTestStop h (by rw [hidle]; rfl)
      (fun hr => by simp [hidle, CallbackPc.registered] at hr) rfl rfl rfl rfl
  | disconnect c listening opened =>
    exact Apart.called c .closeTestStop h (by rw [opened]; rfl) (fun _ => rfl) rfl rfl rfl rfl
  | socketGone => exact h.same (fun p => by cases p <;> rfl) rfl
  | quit => exact h.same (fun p => by cases p <;> rfl) rfl
  | main _ hs => exact hs.apart h
  | maker _ hs => exact hs.apart hl h
  | callback c _ hs => exact hs.apart h
  | game g _ hs => exact hs.apart h

/-- **No connection is held twice, at any time.** In every state of every run, of
the end of the program as well. -/
theorem apart_always (as : List Action) :
    Transition.Always step (fun s => (∀ p q c, c ∈ s.playersAt p → c ∈ s.playersAt q → p = q) ∧
      ∀ p, (s.playersAt p).Nodup) initial as := by
  have hall : Transition.Always step (fun s => s.Linked ∧ s.Apart) initial as :=
    Transition.always_of_invariant (fun _ _ _ h hs => ⟨h.1.step hs, h.2.step h.1 hs⟩) ⟨.initial, .initial⟩ as
  exact hall.mono fun s h => ⟨h.2.exclusive.apart, h.2.exclusive.nodup⟩

end Server

end PokerEngine
