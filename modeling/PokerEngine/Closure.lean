/-
Closed connections in the lobby and in the match maker's buffer. A scan that
meets one of another connection than its own aborts the program.

`OnConnectionClosed` sets the flag and scans both under `connections_mutex_`, so
a closed connection that waits has its scan ahead, and there is one such
connection at a time — as long as nothing puts a connection into the lobby once
its scan is over. `Finish` does: it tests the flag of a player, and pushes the
player later.
-/
import PokerEngine.Locks

namespace PokerEngine

/-- The observers that the closure handler has yet to notify of this closure,
the one it is notifying included. -/
def CallbackPc.ahead : CallbackPc → List ClosureObserver
  | .erase => initializeObservers.closureHandler
  | .lockHandler => initializeObservers.closureHandler
  | .notify rest => rest
  | .scan observer rest => observer :: rest
  | _ => []

/-- In `OnConnectionClosed`. -/
def CallbackPc.closing : CallbackPc → Bool
  | .closeTestStop => true
  | .lockClose => true
  | .find => true
  | .setClosed => true
  | .erase => true
  | .lockHandler => true
  | .notify _ => true
  | .scan _ _ => true
  | .unlockClose => true
  | _ => false

/-- Past the point of `OnConnectionClosed` where the flag is set. -/
def CallbackPc.flagSet : CallbackPc → Bool
  | .erase => true
  | .lockHandler => true
  | .notify _ => true
  | .scan _ _ => true
  | .unlockClose => true
  | .closed => true
  | _ => false

/-! ## Only scans abort -/

theorem MatchMaker.moveInto_error {α : Type} {players : List (Option α)} {xs : List α} {f : Fault}
    (h : moveInto players xs = .error f) : f = .pastTheEnd := by
  induction xs generalizing players with
  | nil => simp [moveInto] at h
  | cons x xs ih =>
    obtain _ | ⟨p, players⟩ := players
    · simpa [moveInto, eq_comm] using h
    · cases hm : moveInto players xs with
      | error f' =>
        simp only [moveInto, hm, bind, Except.bind, Except.error.injEq] at h
        subst h
        exact ih hm
      | ok moved => simp [moveInto, hm, bind, Except.bind, pure, Except.pure] at h

theorem MatchMaker.assembleGame_error {m : MatchMaker} {f : Fault} (h : m.assembleGame = .error f) :
    f ≠ .abort := by
  unfold assembleGame at h
  cases hm : moveInto (List.replicate gNumberOfPlayersInGame none) m.intermediateBuffer with
  | error f' =>
    simp only [hm, bind, Except.bind, Except.error.injEq] at h
    subst h
    simp [moveInto_error hm]
  | ok moved => simp [hm, bind, Except.bind, pure, Except.pure] at h

namespace Server

/-! ## The close callbacks -/

/-- What holds in every run: the loop over the observers goes through the list
in order, and a flag is set only by the connection's own callback. -/
structure Closings (s : Server) : Prop where
  suffix : ∀ c, (s.callbacks c).ahead <:+ initializeObservers.closureHandler
  flagged : ∀ c, s.closed c = true → (s.callbacks c).flagSet = true

theorem Closings.initial : initial.Closings :=
  ⟨fun _ => List.nil_suffix, fun _ hc => absurd hc (by simp [Server.initial])⟩

theorem CallbackWalk.ahead {stop : Bool} {pc pc' : CallbackPc} {op : LockOp} (h : CallbackWalk stop pc op pc')
    (hset : pc ≠ .setClosed) (hscan : ∀ observer rest, pc ≠ .scan observer rest) : pc'.ahead = pc.ahead := by
  cases h <;> first | rfl | (split <;> rfl) | (exact absurd rfl hset) | (exact absurd rfl (hscan _ _))

theorem CallbackWalk.suffix {stop : Bool} {pc pc' : CallbackPc} {op : LockOp} (h : CallbackWalk stop pc op pc')
    (hpc : pc.ahead <:+ initializeObservers.closureHandler) :
    pc'.ahead <:+ initializeObservers.closureHandler := by
  by_cases hset : pc = .setClosed
  · subst hset
    cases h
    exact List.suffix_refl _
  · by_cases hscan : ∃ observer rest, pc = .scan observer rest
    · obtain ⟨observer, rest, rfl⟩ := hscan
      cases h
      exact (List.suffix_cons observer rest).trans hpc
    · rw [h.ahead hset fun observer rest he => hscan ⟨observer, rest, he⟩]
      exact hpc

theorem CallbackWalk.flagSet {stop : Bool} {pc pc' : CallbackPc} {op : LockOp} (h : CallbackWalk stop pc op pc')
    (hpc : pc.flagSet = true) : pc'.flagSet = true := by
  cases h <;> first | rfl | (simp [CallbackPc.flagSet] at hpc)

/-- The close callbacks, their flags and the connections are as they were. -/
theorem Closings.same {s s' : Server} (h : s.Closings) (hcallbacks : s'.callbacks = s.callbacks)
    (hclosed : s'.closed = s.closed) : s'.Closings :=
  ⟨fun c => hcallbacks ▸ h.suffix c, fun c hc => by rw [hcallbacks]; exact h.flagged c (hclosed ▸ hc)⟩

theorem CallbackStep.closings {s s' : Server} {c : ConnId} (h : s.Closings) (hstep : CallbackStep s c s') :
    s'.Closings := by
  cases hstep with
  | move pc pc' op d place walk free data =>
    have hsuffix : ∀ c', (Function.update s.callbacks c pc' c').ahead <:+ initializeObservers.closureHandler :=
      (Function.forall_update_iff s.callbacks fun _ pc => pc.ahead <:+ initializeObservers.closureHandler).mpr
        ⟨walk.suffix (place ▸ h.suffix c), fun c' _ => h.suffix c'⟩
    have hflagged : ∀ c', s.closed c' = true → (Function.update s.callbacks c pc' c').flagSet = true :=
      (Function.forall_update_iff s.callbacks fun c' pc => s.closed c' = true → pc.flagSet = true).mpr
        ⟨fun hc => walk.flagSet (place ▸ h.flagged c hc), fun c' _ => h.flagged c'⟩
    cases data with
    | setClosed =>
      cases walk
      refine ⟨hsuffix, fun c' hc' => ?_⟩
      by_cases hc : c' = c
      · simp [hc, CallbackPc.flagSet]
      · exact hflagged c' (by simpa [hc] using hc')
    | _ => exact ⟨hsuffix, hflagged⟩
  | notFound => exact h.same rfl rfl
  | scanFails => exact h.same rfl rfl

/-- A connection turns to a callback, its flag not set. -/
theorem Closings.called {s s' : Server} {c : ConnId} {pc : CallbackPc} (h : s.Closings)
    (hbefore : (s.callbacks c).flagSet = false) (hpc : pc.ahead = [])
    (hcallbacks : s'.callbacks = Function.update s.callbacks c pc) (hclosed : s'.closed = s.closed) :
    s'.Closings := by
  refine ⟨fun c' => ?_, fun c' hc' => ?_⟩
  · by_cases hc : c' = c
    · simp [hcallbacks, hc, hpc]
    · simpa [hcallbacks, hc] using h.suffix c'
  · rw [hclosed] at hc'
    have hflag := h.flagged c' hc'
    have hc : c' ≠ c := fun he => by simp [he, hbefore] at hflag
    rw [hcallbacks, Function.update_of_ne hc]
    exact hflag

theorem Closings.step {s s' : Server} {a : Action} (hl : s.Linked) (h : s.Closings)
    (hstep : s.step a = some s') : s'.Closings := by
  cases (step_cases hstep).2 with
  | connect c listening fresh => exact h.called (c := c) (by rw [hl.fresh c fresh]; rfl) rfl rfl rfl
  | disconnect c listening opened => exact h.called (c := c) (by rw [opened]; rfl) rfl rfl rfl
  | socketGone => exact h.same rfl rfl
  | quit => exact h.same rfl rfl
  | main _ hs => exact h.same hs.frame.1 hs.frame.2.1
  | maker _ hs => exact h.same hs.frame.2.1 hs.frame.2.2
  | callback c _ hs => exact hs.closings h
  | game g _ hs => exact h.same hs.frame.2.1 hs.frame.2.2

/-! ## Scans ahead -/

/-- Every closed connection that waits is still to be scanned where it waits,
and nothing has aborted. -/
structure ScansAhead (s : Server) : Prop where
  lobby : ∀ w ∈ s.lobby.data, s.closed w.id = true → .lobby ∈ (s.callbacks w.id).ahead
  buffer : ∀ w ∈ s.matchMaker.intermediateBuffer, s.closed w.id = true → .matchMaker ∈ (s.callbacks w.id).ahead
  aborted : s.halted ≠ some .abort

/-- The player that an action puts back into the lobby. -/
def returned (s : Server) : Action → Option ConnId
  | .run (.game g) => if (s.manager.conductors g).destroyed then none
    else
      match (s.manager.conductors g).pc with
      | .push _ _ value => some value
      | _ => none
  | _ => none

/-- The condition on a step: a player that a game puts back into the lobby is
open, or the scan of the lobby for its closure is still to come. -/
def ReturnsOpen (s : Server) (a : Action) : Prop :=
  ∀ v ∈ s.returned a, s.closed v = true → .lobby ∈ (s.callbacks v).ahead

theorem ScansAhead.initial : initial.ScansAhead :=
  ⟨fun _ hw => absurd hw List.not_mem_nil, fun _ hw => absurd hw List.not_mem_nil, by simp [Server.initial]⟩

theorem ahead_held {pc : CallbackPc} {observer : ClosureObserver} (h : observer ∈ pc.ahead) :
    .connections ∈ pc.held := by
  cases pc <;> simp_all [CallbackPc.ahead, CallbackPc.held]

/-- Only one connection at a time has scans ahead: the mutex of the connections
is held over all of them. -/
theorem LocksOk.ahead_unique {s : Server} (h : s.LocksOk) {c c' : ConnId} {o o' : ClosureObserver}
    (hc : o ∈ (s.callbacks c).ahead) (hc' : o' ∈ (s.callbacks c').ahead) : c = c' := by
  have heq := h.owned.unique (t := .callback c) (u := .callback c') (ahead_held hc) (ahead_held hc')
  simpa using heq

/-- A scan does not abort: it can meet no closed connection but its own. -/
theorem ScansAhead.scan_isOk {s : Server} (h : s.ScansAhead) (hlocks : s.LocksOk) {c : ConnId}
    {observer : ClosureObserver} {rest : List ClosureObserver} (place : s.callbacks c = .scan observer rest) :
    ∃ s', s.scanStash observer c = .ok s' := by
  have hself : observer ∈ (s.callbacks c).ahead := by simp [place, CallbackPc.ahead]
  cases observer with
  | lobby =>
    have hown : ∀ w ∈ s.lobby.data, s.closed w.id = true → w.id = c := fun w hw hc =>
      hlocks.ahead_unique (h.lobby w hw hc) hself
    obtain ⟨n, lobby, hscan⟩ := Lobby.onConnectionClosed_isOk hown
    exact ⟨_, by rw [scanStash, hscan]; rfl⟩
  | matchMaker =>
    have hown : ∀ w ∈ s.matchMaker.intermediateBuffer, s.closed w.id = true → w.id = c := fun w hw hc =>
      hlocks.ahead_unique (h.buffer w hw hc) hself
    obtain ⟨n, matchMaker, hscan⟩ := MatchMaker.onConnectionClosed_isOk hown
    exact ⟨_, by rw [scanStash, hscan]; rfl⟩

/-- A step that leaves the lobby and the buffer alone. -/
theorem ScansAhead.same {s s' : Server} (h : s.ScansAhead) (hlobby : s'.lobby = s.lobby)
    (hbuffer : s'.matchMaker.intermediateBuffer = s.matchMaker.intermediateBuffer)
    (hcallbacks : s'.callbacks = s.callbacks) (hclosed : s'.closed = s.closed)
    (haborted : s'.halted ≠ some .abort) : s'.ScansAhead := by
  refine ⟨?_, ?_, haborted⟩
  · rw [hlobby, hcallbacks, hclosed]
    exact h.lobby
  · rw [hbuffer, hcallbacks, hclosed]
    exact h.buffer

/-- The thread of a connection goes on, with the same scans ahead. -/
theorem ScansAhead.walked {s s' : Server} {c : ConnId} {pc : CallbackPc} (h : s.ScansAhead)
    (hahead : pc.ahead = (s.callbacks c).ahead) (hlobby : s'.lobby = s.lobby)
    (hmatchMaker : s'.matchMaker = s.matchMaker) (hcallbacks : s'.callbacks = Function.update s.callbacks c pc)
    (hclosed : s'.closed = s.closed) (hhalted : s'.halted = s.halted) : s'.ScansAhead := by
  have hsame : ∀ c', (s'.callbacks c').ahead = (s.callbacks c').ahead := by
    rw [hcallbacks]
    exact (Function.forall_update_iff s.callbacks fun c' pc => pc.ahead = (s.callbacks c').ahead).mpr
      ⟨hahead, fun _ _ => rfl⟩
  refine ⟨fun w hw hc => ?_, fun w hw hc => ?_, hhalted ▸ h.aborted⟩
  · rw [hsame]
    exact h.lobby w (hlobby ▸ hw) (hclosed ▸ hc)
  · rw [hsame]
    exact h.buffer w (hmatchMaker ▸ hw) (hclosed ▸ hc)

/-- After a scan those of the other observers are still ahead. -/
theorem ahead_scanned {s : Server} {c c' : ConnId} {observer o : ClosureObserver} {rest : List ClosureObserver}
    (place : s.callbacks c = .scan observer rest) (hne : o ≠ observer) (h : o ∈ (s.callbacks c').ahead) :
    o ∈ (Function.update s.callbacks c (.notify rest) c').ahead := by
  by_cases hc : c' = c
  · subst hc
    rw [place, CallbackPc.ahead, List.mem_cons] at h
    rw [Function.update_self]
    exact h.resolve_left hne
  · rwa [Function.update_of_ne hc]

theorem CallbackStep.scansAhead {s s' : Server} {c : ConnId} (hlocks : s.LocksOk) (hcl : s.Closings)
    (h : s.ScansAhead) (hstep : CallbackStep s c s') : s'.ScansAhead := by
  cases hstep with
  | move pc pc' op d place walk free data =>
    have hwalk : pc ≠ .setClosed → (∀ observer rest, pc ≠ .scan observer rest) →
        pc'.ahead = (s.callbacks c).ahead := fun hset hscan => place.symm ▸ walk.ahead hset hscan
    cases data with
    | quiet _ hquiet =>
      exact h.walked (hwalk (fun he => by simp [he, CallbackPc.quiet] at hquiet) fun observer rest he => by
        simp [he, CallbackPc.quiet] at hquiet) rfl rfl rfl rfl rfl
    | register => exact h.walked (hwalk (by simp) (by simp)) rfl rfl rfl rfl rfl
    | erase => exact h.walked (hwalk (by simp) (by simp)) rfl rfl rfl rfl rfl
    | push =>
      have hopen : s.closed c = false := by
        by_contra hc
        have := hcl.flagged c (by simpa using hc)
        simp [place, CallbackPc.flagSet] at this
      have hw : ({ s with callbacks := Function.update s.callbacks c pc' } : Server).ScansAhead :=
        h.walked (hwalk (by simp) (by simp)) rfl rfl rfl rfl rfl
      refine ⟨fun w hw' hc => ?_, hw.buffer, h.aborted⟩
      rcases List.mem_append.mp hw' with hw' | hw'
      · exact hw.lobby w hw' hc
      · rw [List.mem_singleton.mp hw'] at hc
        simp [hopen] at hc
    | setClosed =>
      cases walk
      have hset : ∀ o c', Function.update s.closed c true c' = true →
          (s.closed c' = true → o ∈ (s.callbacks c').ahead) →
          o ∈ (Function.update s.callbacks c .erase c').ahead := by
        intro o c' hc' hbefore
        by_cases hc : c' = c
        · subst hc
          rw [Function.update_self]
          cases o <;> decide
        · rw [Function.update_of_ne hc] at hc' ⊢
          exact hbefore hc'
      exact ⟨fun w hw hc => hset _ w.id hc (h.lobby w hw), fun w hw hc => hset _ w.id hc (h.buffer w hw), h.aborted⟩
    | scanLobby rest n lobby scanned =>
      cases walk
      rw [Lobby.onConnectionClosed_ok scanned]
      refine ⟨fun w hw hc => ?_, fun w hw hc => ahead_scanned place (by simp) (h.buffer w hw hc), h.aborted⟩
      have hopen := (List.mem_filter.mp hw).2
      exact absurd hc (by simpa using hopen)
    | scanBuffer rest n matchMaker scanned =>
      cases walk
      rw [MatchMaker.onConnectionClosed_ok scanned]
      refine ⟨fun w hw hc => ahead_scanned place (by simp) (h.lobby w hw hc), fun w hw hc => ?_, h.aborted⟩
      have hopen := (List.mem_filter.mp hw).2
      exact absurd hc (by simpa using hopen)
  | notFound => exact h.same rfl rfl rfl rfl (by simp [halt])
  | scanFails observer rest f place fails =>
    obtain ⟨d, hd⟩ := h.scan_isOk hlocks place
    simp [hd] at fails

/-- What still has the scan of the lobby ahead has that of the buffer ahead. -/
theorem Closings.buffer_ahead {s : Server} (h : s.Closings) {c : ConnId} (hc : .lobby ∈ (s.callbacks c).ahead) :
    .matchMaker ∈ (s.callbacks c).ahead := by
  have hs := h.suffix c
  generalize (s.callbacks c).ahead = l at hc hs
  simp only [initializeObservers, Observers.addToClosureHandler, Observers.addToServerManager, List.nil_append,
    List.cons_append, List.suffix_cons_iff, List.suffix_nil] at hs
  rcases hs with rfl | rfl | rfl
  · decide
  · simp at hc
  · simp at hc

theorem MakerStep.scansAhead {s s' : Server} (hcl : s.Closings) (h : s.ScansAhead) (hstep : MakerStep s s') :
    s'.ScansAhead := by
  cases hstep with
  | move pc pc' op d place walk free data =>
    cases data with
    | quiet => exact h.same rfl rfl rfl rfl h.aborted
    | fill =>
      unfold MatchMaker.fill
      split
      next => exact h.same rfl rfl rfl rfl h.aborted
      next front rest hdata =>
        split
        next => exact h.same rfl rfl rfl rfl h.aborted
        next =>
          refine ⟨fun w hw hc => h.lobby w (hdata ▸ List.mem_cons_of_mem _ hw) hc, fun w hw hc => ?_, h.aborted⟩
          rcases List.mem_append.mp hw with hw | hw
          · exact h.buffer w hw hc
          · rw [List.mem_singleton.mp hw] at hc ⊢
            exact hcl.buffer_ahead (h.lobby front (hdata ▸ List.mem_cons_self) hc)
    | assemble players matchMaker full taken =>
      rw [MatchMaker.assembleGame_of_full full, Except.ok.injEq, Prod.mk.injEq] at taken
      obtain ⟨-, rfl⟩ := taken
      exact ⟨h.lobby, fun w hw => absurd hw List.not_mem_nil, h.aborted⟩
  | create => exact h.same rfl rfl rfl rfl h.aborted
  | created => exact h.same rfl rfl rfl rfl h.aborted
  | assembleFails f fails =>
    exact h.same rfl rfl rfl rfl fun he => MatchMaker.assembleGame_error fails (by simpa [halt] using he)
  | createFails f fails =>
    exact h.same rfl rfl rfl rfl fun he => MatchConductorManager.createStep_error fails (by simpa [halt] using he)

theorem MainStep.scansAhead {s s' : Server} (h : s.ScansAhead) (hstep : MainStep s s') : s'.ScansAhead := by
  cases hstep with
  | move pc pc' op d place walk free data => cases data <;> exact h.same rfl rfl rfl rfl h.aborted
  | finish => exact h.same rfl rfl rfl rfl h.aborted
  | fails f failed =>
    exact h.same rfl rfl rfl rfl fun he => MatchConductorManager.endStep_error failed (by simpa [halt] using he)

/-- A step of a game keeps the scans ahead exactly when it meets the
condition. -/
theorem GameStep.scansAhead_iff {s s' : Server} {g : GameId} (h : s.ScansAhead) (hstep : GameStep s g s') :
    s'.ScansAhead ↔ s.ReturnsOpen (.run (.game g)) := by
  cases hstep with
  | move c e op lobby stepped live free data =>
    have hreturned : ∀ v, v ∈ s.returned (.run (.game g)) ↔ e = .push v := by
      intro v
      rw [MatchConductor.step_push stepped v, returned, live]
      cases (s.manager.conductors g).pc <;> simp
    cases data with
    | push value =>
      have hself : ∀ v, v ∈ s.returned (.run (.game g)) ↔ v = value := fun v => by simp [hreturned, eq_comm]
      constructor
      · intro h' v hv hc
        rw [hself] at hv
        subst hv
        exact h'.lobby ⟨v, s.lobby.pushed.length⟩ (List.mem_append_right _ (List.mem_singleton.mpr rfl)) hc
      · intro hok
        refine ⟨fun w hw hc => ?_, h.buffer, h.aborted⟩
        rcases List.mem_append.mp hw with hw | hw
        · exact h.lobby w hw hc
        · rw [List.mem_singleton.mp hw] at hc ⊢
          exact hok value ((hself value).mpr rfl) hc
    | silent =>
      exact ⟨fun _ v hv => absurd ((hreturned v).mp hv) (by simp), fun _ => h.same rfl rfl rfl rfl h.aborted⟩
    | lockLobby =>
      exact ⟨fun _ v hv => absurd ((hreturned v).mp hv) (by simp), fun _ => h.same rfl rfl rfl rfl h.aborted⟩
  | fails f failed =>
    have hnone : s.returned (.run (.game g)) = none := by
      cases hd : (s.manager.conductors g).destroyed with
      | true => simp [returned, hd]
      | false =>
        cases hpc : (s.manager.conductors g).pc with
        | push i left value =>
          simp [MatchConductorManager.gameStep, MatchConductor.step, hpc, hd, pure] at failed
        | _ => simp [returned, hd, hpc]
    refine ⟨fun _ v hv => absurd hv (by simp [hnone]), fun _ => h.same rfl rfl rfl rfl fun he => ?_⟩
    exact MatchConductorManager.gameStep_error failed (by simpa [halt] using he)

/-- **A step keeps the scans ahead exactly when it meets the condition.** -/
theorem ScansAhead.step_iff {s s' : Server} {a : Action} (hlocks : s.LocksOk) (hcl : s.Closings)
    (h : s.ScansAhead) (hstep : s.step a = some s') : s'.ScansAhead ↔ s.ReturnsOpen a := by
  have hother : s'.ScansAhead → s.returned a = none → (s'.ScansAhead ↔ s.ReturnsOpen a) := fun h' hnone =>
    ⟨fun _ v hv => absurd hv (by simp [hnone]), fun _ => h'⟩
  cases (step_cases hstep).2 with
  | connect c listening fresh =>
    have hidle := hlocks.linked.fresh c fresh
    exact hother (h.walked (c := c) (by rw [hidle]; rfl) rfl rfl rfl rfl rfl) rfl
  | disconnect c listening opened =>
    exact hother (h.walked (c := c) (by rw [opened]; rfl) rfl rfl rfl rfl rfl) rfl
  | socketGone => exact hother (h.same rfl rfl rfl rfl h.aborted) rfl
  | quit => exact hother (h.same rfl rfl rfl rfl h.aborted) rfl
  | main _ hs => exact hother (hs.scansAhead h) rfl
  | maker _ hs => exact hother (hs.scansAhead hcl h) rfl
  | callback c _ hs => exact hother (hs.scansAhead hlocks hcl h) rfl
  | game g _ hs => exact hs.scansAhead_iff h

/-! ## Runs -/

/-- A closed connection in the lobby or the buffer is the one whose
`OnConnectionClosed` is in progress, under `connections_mutex_`; and no scan has
aborted. -/
structure ClosedInProgress (s : Server) : Prop where
  waiting : ∀ w ∈ s.lobby.data ++ s.matchMaker.intermediateBuffer, s.closed w.id = true →
    (s.callbacks w.id).closing = true ∧ s.holder .connections = some (.callback w.id)
  aborted : s.halted ≠ some .abort

theorem ahead_closing {pc : CallbackPc} {observer : ClosureObserver} (h : observer ∈ pc.ahead) :
    pc.closing = true := by
  cases pc <;> simp_all [CallbackPc.ahead, CallbackPc.closing]

theorem ScansAhead.closedInProgress {s : Server} (hlocks : s.LocksOk) (h : s.ScansAhead) :
    s.ClosedInProgress := by
  have hahead : ∀ {c : ConnId} {o : ClosureObserver}, o ∈ (s.callbacks c).ahead →
      (s.callbacks c).closing = true ∧ s.holder .connections = some (.callback c) := fun ho =>
    ⟨ahead_closing ho, (hlocks.owned .connections (.callback _)).mpr (ahead_held ho)⟩
  refine ⟨fun w hw hc => ?_, h.aborted⟩
  rcases List.mem_append.mp hw with hw | hw
  · exact hahead (h.lobby w hw hc)
  · exact hahead (h.buffer w hw hc)

/-- Along a run the scans stay ahead exactly when all its steps meet the
condition. -/
theorem scansAhead_iff_guarded (as : List Action) :
    Transition.Always step (fun s => (s.LocksOk ∧ s.Closings) ∧ s.ScansAhead) initial as ↔
      Transition.Guarded step ReturnsOpen initial as := by
  refine Transition.always_iff_guarded (I := fun s => s.LocksOk ∧ s.Closings)
    (fun s a s' h hs => ⟨h.1.step hs, h.2.step h.1.linked hs⟩) (fun s a s' h hP hs => ?_)
    ⟨LocksOk.initial, Closings.initial⟩ ⟨⟨LocksOk.initial, Closings.initial⟩, ScansAhead.initial⟩ as
  rw [← hP.2.step_iff h.1 h.2 hs]
  exact ⟨And.right, fun h' => ⟨⟨h.1.step hs, h.2.step h.1.linked hs⟩, h'⟩⟩

/-- **When closed connections do not stay.** In every run in which each player
that a game puts back into the lobby is open, or has the scan of the lobby for
its closure still to come, every closed connection in the lobby or the buffer is
the one whose `OnConnectionClosed` is in progress, and no scan aborts. -/
theorem closed_in_progress {as : List Action} (h : Transition.Guarded step ReturnsOpen initial as) :
    Transition.Always step ClosedInProgress initial as :=
  ((scansAhead_iff_guarded as).mpr h).mono fun _ hs => hs.2.closedInProgress hs.1.1

instance (s : Server) (a : Action) : Decidable (s.ReturnsOpen a) :=
  inferInstanceAs (Decidable (∀ v ∈ s.returned a, _ → _ ∈ _))

/-- A game of the players 0, 1 and 2, which have just connected, up to the point
in `Finish` where it goes to put player 0 back into the lobby. -/
def finishingRun : List Action :=
  List.replicate 5 (.run .main) ++
  .connect 0 :: List.replicate 5 (.run (.callback 0)) ++
  .connect 1 :: List.replicate 5 (.run (.callback 1)) ++
  .connect 2 :: List.replicate 5 (.run (.callback 2)) ++
  List.replicate 30 (.run .maker) ++ List.replicate 9 (.run (.game 0))

/-- Player 0 is put back into the lobby between the setting of its flag and the
scan. -/
theorem closed_in_progress_raced :
    (Transition.run step initial (finishingRun ++ .disconnect 0 :: List.replicate 5 (.run (.callback 0)) ++
      List.replicate 2 (.run (.game 0)))).map (fun s => (s.lobby.data, s.closed 0)) = some ([⟨0, 3⟩], true) ∧
    Transition.Always step ClosedInProgress initial
      (finishingRun ++ .disconnect 0 :: List.replicate 5 (.run (.callback 0)) ++ List.replicate 2 (.run (.game 0)) ++
        List.replicate 7 (.run (.callback 0))) :=
  ⟨by rfl, closed_in_progress (by decide +kernel)⟩

/-- Player 0 disconnects after `Finish` tested its flag, and is put back into the
lobby after its `OnConnectionClosed` has returned. -/
def closedReturnRun : List Action :=
  finishingRun ++ .disconnect 0 :: List.replicate 12 (.run (.callback 0)) ++ List.replicate 2 (.run (.game 0))

/-- A closed connection stays in the lobby with no `OnConnectionClosed` in
progress, and the next connection to be closed aborts the program. -/
theorem closed_connection_stays :
    (Transition.run step initial closedReturnRun).map
        (fun s => (s.main, s.lobby.data, s.closed 0, s.callbacks 0)) =
      some (.waiting, [⟨0, 3⟩], true, .closed) ∧
    (Transition.run step initial (closedReturnRun ++ .connect 3 :: List.replicate 5 (.run (.callback 3)) ++
        .disconnect 3 :: List.replicate 8 (.run (.callback 3)))).map (fun s => (s.main, s.halted)) =
      some (.waiting, some .abort) :=
  ⟨by rfl, by rfl⟩

end Server

end PokerEngine
