/-
The containers that the threads share: the registered connections, the lobby,
the match maker's buffer and the list of games.

A thread is only about to read or change one of them where its place holds the
mutex of that container, so no two threads are at the same time
(`no_two_touch`).
-/
import PokerEngine.Locks
import PokerEngine.MatchConductorSteps

namespace PokerEngine

/-- `Server::connections_`, `Lobby::data_`, `MatchMaker::intermediate_buffer_` and
`MatchConductorManager::match_conductors_`. -/
inductive Container
  | connections
  | lobby
  | buffer
  | matchConductors
  deriving DecidableEq, Repr

def Container.mutex : Container → Mutex
  | .connections => .connections
  | .lobby => .lobby
  | .buffer => .buffer
  | .matchConductors => .conductors

/-! ## What a place touches -/

def CallbackPc.touches : CallbackPc → List Container
  | .register => [.connections]
  | .push => [.lobby]
  | .find => [.connections]
  | .erase => [.connections]
  | .scan .lobby _ => [.lobby]
  | .scan .matchMaker _ => [.buffer]
  | _ => []

def MakerPc.touches : MakerPc → List Container
  | .empty => [.lobby]
  | .fill => [.lobby, .buffer]
  | .assemble => [.buffer]
  | _ => []

def CreatePc.touches : CreatePc → List Container
  | .cleanUp _ _ => [.matchConductors]
  | .register _ => [.matchConductors]
  | _ => []

def EndPc.touches : EndPc → List Container
  | .force _ => [.matchConductors]
  | _ => []

def GamePc.touches : GamePc → List Container
  | .push _ _ _ => [.lobby]
  | _ => []

namespace Server

def touches (s : Server) : Thread → List Container
  | .main => s.manager.finish.touches
  | .maker => s.maker.touches ++ s.manager.create.touches
  | .callback c => (s.callbacks c).touches
  | .game g => (s.manager.conductors g).pc.touches

/-- `s` with what container `k` holds in `x`, its history with it. -/
def withContents (s x : Server) : Container → Server
  | .connections => { s with connections := x.connections }
  | .lobby => { s with lobby := x.lobby }
  | .buffer => { s with matchMaker := { x.matchMaker with stop := s.matchMaker.stop } }
  | .matchConductors => { s with manager := { s.manager with matchConductors := x.manager.matchConductors } }

/-- The next step of `t` neither reads nor changes container `k`: with any other
contents it is the same step, and these stay. -/
def Untouched (s : Server) (t : Thread) (k : Container) : Prop :=
  ∀ x, (s.withContents x k).threadStep t = (s.threadStep t).map (·.withContents x k)

section Contents

variable {s x : Server} {k : Container} {c : ConnId}

@[simp] theorem withContents_callbacks : (s.withContents x k).callbacks = s.callbacks := by cases k <;> rfl

@[simp] theorem withContents_maker : (s.withContents x k).maker = s.maker := by cases k <;> rfl

@[simp] theorem withContents_main : (s.withContents x k).main = s.main := by cases k <;> rfl

@[simp] theorem withContents_stop : (s.withContents x k).stop = s.stop := by cases k <;> rfl

@[simp] theorem withContents_closed : (s.withContents x k).closed = s.closed := by cases k <;> rfl

@[simp] theorem withContents_alive : (s.withContents x k).alive = s.alive := by cases k <;> rfl

@[simp] theorem withContents_locks : (s.withContents x k).locks = s.locks := by cases k <;> rfl

@[simp] theorem withContents_clients : (s.withContents x k).clients = s.clients := by cases k <;> rfl

@[simp] theorem withContents_makerStop : (s.withContents x k).matchMaker.stop = s.matchMaker.stop := by
  cases k <;> rfl

theorem callbackTo_withContents (pc : CallbackPc) :
    (s.withContents x k).callbackTo c pc = (s.callbackTo c pc).withContents x k := by cases k <;> rfl

theorem makerTo_withContents (pc : MakerPc) :
    (s.withContents x k).makerTo pc = (s.makerTo pc).withContents x k := by cases k <;> rfl

theorem mainTo_withContents (pc : MainPc) :
    (s.withContents x k).mainTo pc = (s.mainTo pc).withContents x k := by cases k <;> rfl

theorem release_withContents (m : Mutex) :
    (s.withContents x k).release m = (s.release m).withContents x k := by cases k <;> rfl

theorem halt_withContents (f : Fault) : (s.withContents x k).halt f = (s.halt f).withContents x k := by
  cases k <;> rfl

theorem acquire_withContents (m : Mutex) (t : Thread) :
    (s.withContents x k).acquire m t = (s.acquire m t).map (·.withContents x k) := by
  unfold acquire
  rw [withContents_locks]
  split
  · cases k <;> rfl
  · rfl

end Contents

variable {s : Server}

theorem callback_untouched {c : ConnId} {k : Container} (h : k ∉ (s.callbacks c).touches) :
    s.Untouched (.callback c) k := by
  intro x
  show (s.withContents x k).callbackStep c = (s.callbackStep c).map _
  unfold callbackStep
  rw [withContents_callbacks]
  cases hpc : s.callbacks c with
  | idle => rfl
  | opened => rfl
  | closed => rfl
  | openTestStop => simp [callbackTo_withContents]
  | lockRegister => simp [acquire_withContents, callbackTo_withContents, Function.comp_def]
  | register =>
    have hk : k ≠ .connections := by simpa [hpc, CallbackPc.touches] using h
    cases k <;> first | rfl | exact absurd rfl hk
  | lockPush => simp [acquire_withContents, callbackTo_withContents, Function.comp_def]
  | push =>
    have hk : k ≠ .lobby := by simpa [hpc, CallbackPc.touches] using h
    cases k <;> first | rfl | exact absurd rfl hk
  | closeTestStop => simp [callbackTo_withContents]
  | lockClose => simp [acquire_withContents, callbackTo_withContents, Function.comp_def]
  | find =>
    have hk : k ≠ .connections := by simpa [hpc, CallbackPc.touches] using h
    have hconnections : (s.withContents x k).connections = s.connections := by
      cases k <;> first | rfl | exact absurd rfl hk
    simp only [hconnections, callbackTo_withContents, halt_withContents]
    split <;> rfl
  | setClosed => cases k <;> rfl
  | erase =>
    have hk : k ≠ .connections := by simpa [hpc, CallbackPc.touches] using h
    cases k <;> first | rfl | exact absurd rfl hk
  | lockHandler => simp [acquire_withContents, callbackTo_withContents, Function.comp_def]
  | notify rest =>
    cases rest with
    | nil => simp [release_withContents, callbackTo_withContents]
    | cons observer rest => simp [acquire_withContents, callbackTo_withContents, Function.comp_def]
  | scan observer rest =>
    have hscan : (s.withContents x k).scanStash observer c = (s.scanStash observer c).map (·.withContents x k) := by
      cases observer with
      | lobby =>
        have hk : k ≠ .lobby := by simpa [hpc, CallbackPc.touches] using h
        have hscanned : (s.withContents x k).lobby = s.lobby := by cases k <;> first | rfl | exact absurd rfl hk
        simp only [scanStash, hscanned, withContents_closed]
        cases s.lobby.onConnectionClosed s.closed c with
        | error f => rfl
        | ok p => cases k <;> first | rfl | exact absurd rfl hk
      | matchMaker =>
        have hk : k ≠ .buffer := by simpa [hpc, CallbackPc.touches] using h
        have hscanned : (s.withContents x k).matchMaker = s.matchMaker := by
          cases k <;> first | rfl | exact absurd rfl hk
        simp only [scanStash, hscanned, withContents_closed]
        cases s.matchMaker.onConnectionClosed s.closed c with
        | error f => rfl
        | ok p => cases k <;> first | rfl | exact absurd rfl hk
    simp only [hscan]
    cases s.scanStash observer c with
    | error f => simp [Except.map, halt_withContents]
    | ok s' => simp [Except.map, release_withContents, callbackTo_withContents]
  | unlockClose => simp [release_withContents, callbackTo_withContents]

/-- Only the clean-up and the registration of a game look at the list. -/
theorem createStep_untouched {m : MatchConductorManager} {l : List Slot}
    (h : .matchConductors ∉ m.create.touches) :
    { m with matchConductors := l : MatchConductorManager }.createStep =
      m.createStep.map (Except.map ({ · with matchConductors := l })) := by
  unfold MatchConductorManager.createStep
  cases hpc : m.create with
  | idle => rfl
  | testFinish ps => rfl
  | lockCleanUp ps =>
    simp only [MatchConductorManager.acquire]
    split <;> rfl
  | cleanUp ps e => simp [hpc, CreatePc.touches] at h
  | unlockCleanUp ps => rfl
  | construct ps =>
    simp only [bind, Except.bind, pure, Except.pure]
    cases MatchConductor.construct ps <;> rfl
  | start g => rfl
  | lockRegister g =>
    simp only [MatchConductorManager.acquire]
    split <;> rfl
  | register g => simp [hpc, CreatePc.touches] at h

theorem endStep_untouched {m : MatchConductorManager} {l : List Slot} (h : .matchConductors ∉ m.finish.touches) :
    { m with matchConductors := l : MatchConductorManager }.endStep =
      m.endStep.map (Except.map ({ · with matchConductors := l })) := by
  unfold MatchConductorManager.endStep
  cases hpc : m.finish with
  | idle => rfl
  | setFlag => rfl
  | lock =>
    simp only [MatchConductorManager.acquire]
    split <;> rfl
  | force i => simp [hpc, EndPc.touches] at h
  | unlock => rfl
  | done => rfl

theorem maker_untouched {k : Container} (h : k ∉ s.touches .maker) : s.Untouched .maker k := by
  intro x
  show (s.withContents x k).makerStep = s.makerStep.map _
  simp only [touches, List.mem_append, not_or] at h
  obtain ⟨hmaker, hcreate⟩ := h
  unfold makerStep
  rw [withContents_maker]
  cases hpc : s.maker with
  | unstarted => rfl
  | testStop => simp [makerTo_withContents]
  | lockEmpty => simp [acquire_withContents, makerTo_withContents, Function.comp_def]
  | empty =>
    have hk : k ≠ .lobby := by simpa [hpc, MakerPc.touches] using hmaker
    cases k <;> first | rfl | exact absurd rfl hk
  | lockWait => simp [acquire_withContents, makerTo_withContents, Function.comp_def]
  | wait => simp [release_withContents, makerTo_withContents]
  | wake => simp [acquire_withContents, makerTo_withContents, Function.comp_def]
  | unlockWait => simp [release_withContents, makerTo_withContents]
  | lockBoth =>
    simp only [withContents_locks]
    split
    · cases k <;> rfl
    · rfl
  | fill =>
    have hk : k ≠ .lobby ∧ k ≠ .buffer := by simpa [hpc, MakerPc.touches] using hmaker
    cases k <;> first | rfl | exact absurd rfl hk.1 | exact absurd rfl hk.2
  | lockBuffer => simp [acquire_withContents, makerTo_withContents, Function.comp_def]
  | assemble =>
    have hk : k ≠ .buffer := by simpa [hpc, MakerPc.touches] using hmaker
    have hbuffer : (s.withContents x k).matchMaker = s.matchMaker := by
      cases k <;> first | rfl | exact absurd rfl hk
    simp only [hbuffer]
    split
    · cases s.matchMaker.assembleGame with
      | error f => simp [halt_withContents]
      | ok p => cases k <;> first | rfl | exact absurd rfl hk
    · simp [release_withContents, makerTo_withContents]
  | creating =>
    by_cases hk : k = .matchConductors
    · subst hk
      have hcreated := createStep_untouched (l := x.manager.matchConductors) hcreate
      simp only [withContents, hcreated]
      split
      · rfl
      · cases s.manager.createStep with
        | none => rfl
        | some r => cases r <;> rfl
    · have hmanager : (s.withContents x k).manager = s.manager := by cases k <;> first | rfl | exact absurd rfl hk
      simp only [hmanager]
      split
      · simp [makerTo_withContents]
      · cases s.manager.createStep with
        | none => rfl
        | some r => cases r <;> cases k <;> first | rfl | exact absurd rfl hk
  | returned => rfl

theorem gameStep_untouched {m : MatchConductorManager} {l : List Slot} (closed alive : ConnId → Bool) (g : GameId) :
    { m with matchConductors := l : MatchConductorManager }.gameStep closed alive g =
      (m.gameStep closed alive g).map (Except.map fun p => ({ p.1 with matchConductors := l }, p.2)) := by
  unfold MatchConductorManager.gameStep
  cases (m.conductors g).step closed alive with
  | none => rfl
  | some p =>
    obtain ⟨c, e⟩ := p
    cases hd : (m.conductors g).destroyed with
    | true => simp [Except.map]
    | false => cases e <;> simp [Except.map, MatchConductorManager.setConductor]

theorem game_untouched {g : GameId} {k : Container} (h : k ∉ s.touches (.game g)) : s.Untouched (.game g) k := by
  intro x
  show (s.withContents x k).gameStep g = (s.gameStep g).map _
  have hpush : ∀ manager value, s.manager.gameStep s.closed s.alive g = some (.ok (manager, .push value)) →
      k ≠ .lobby := by
    intro manager value hstep hk
    obtain ⟨c, hs, _, _, _⟩ := MatchConductorManager.gameStep_ok hstep
    obtain ⟨i, left, hpc⟩ := (MatchConductor.step_push hs value).mp rfl
    simp [touches, hpc, GamePc.touches, hk] at h
  unfold gameStep
  have hgame : (s.withContents x k).manager.gameStep s.closed s.alive g =
      (s.manager.gameStep s.closed s.alive g).map
        (Except.map fun p => ({ s with manager := p.1 }.withContents x k |>.manager, p.2)) := by
    cases k with
    | matchConductors => exact gameStep_untouched ..
    | _ =>
      show s.manager.gameStep s.closed s.alive g = _
      cases s.manager.gameStep s.closed s.alive g with
      | none => rfl
      | some r => cases r <;> rfl
  rw [withContents_closed, withContents_alive, hgame]
  cases hstep : s.manager.gameStep s.closed s.alive g with
  | none => rfl
  | some r =>
    cases r with
    | error f => simp [Except.map, halt_withContents]
    | ok p =>
      obtain ⟨manager, effect⟩ := p
      cases effect with
      | silent => cases k <;> rfl
      | lockLobby =>
        simp only [Option.map_some, Except.map, acquire_withContents]
        cases s.acquire .lobby (.game g) with
        | none => rfl
        | some s' => cases k <;> rfl
      | push value =>
        have hk := hpush manager value hstep
        cases k <;> first | rfl | exact absurd rfl hk
      | fault f => cases k <;> rfl

theorem main_untouched {k : Container} (h : k ∉ s.touches .main) : s.Untouched .main k := by
  intro x
  show (s.withContents x k).mainStep = s.mainStep.map _
  unfold mainStep
  rw [withContents_main]
  cases hpc : s.main with
  | lockStart => simp [acquire_withContents, mainTo_withContents, Function.comp_def]
  | start rest =>
    cases rest with
    | nil => simp [release_withContents, mainTo_withContents]
    | cons observer rest =>
      cases observer with
      | server => cases k <;> rfl
      | matchConductorManager => simp [mainTo_withContents]
      | matchMaker =>
        simp only [withContents_maker]
        split <;> cases k <;> rfl
  | waiting => rfl
  | lockEnd => simp [acquire_withContents, mainTo_withContents, Function.comp_def]
  | ending rest =>
    cases rest with
    | nil => simp [release_withContents, mainTo_withContents]
    | cons observer rest => cases observer <;> cases k <;> rfl
  | makerJoin rest =>
    simp only [withContents_maker]
    split
    · simp [mainTo_withContents]
    · rfl
  | makerResetStop rest => cases k <;> rfl
  | serverStop rest =>
    simp only [withContents_clients, withContents_callbacks]
    split
    · cases k <;> rfl
    · rfl
  | managerEnd rest =>
    by_cases hk : k = .matchConductors
    · subst hk
      have hended := endStep_untouched (l := x.manager.matchConductors) h
      simp only [withContents, hended]
      split
      · rfl
      · cases s.manager.endStep with
        | none => rfl
        | some r => cases r <;> rfl
    · have hmanager : (s.withContents x k).manager = s.manager := by cases k <;> first | rfl | exact absurd rfl hk
      simp only [hmanager]
      split
      · simp [mainTo_withContents]
      · cases s.manager.endStep with
        | none => rfl
        | some r => cases r <;> cases k <;> first | rfl | exact absurd rfl hk
  | ended => rfl

/-! ## One thread at a time -/

theorem untouched_of_not_touches {t : Thread} {k : Container} (h : k ∉ s.touches t) : s.Untouched t k := by
  cases t with
  | main => exact main_untouched h
  | maker => exact maker_untouched h
  | callback c => exact callback_untouched h
  | game g => exact game_untouched h

/-- A place that touches a container holds its mutex. -/
theorem touches_held {t : Thread} {k : Container} (h : k ∈ s.touches t) : k.mutex ∈ s.held t := by
  have hcreate : k ∈ s.manager.create.touches → k.mutex ∈ s.manager.create.held := by
    cases s.manager.create <;> simp +contextual [CreatePc.touches, CreatePc.held, Container.mutex]
  have hfinish : k ∈ s.manager.finish.touches → k.mutex ∈ s.manager.finish.held := by
    cases s.manager.finish <;> simp +contextual [EndPc.touches, EndPc.held, Container.mutex]
  cases t with
  | main => exact List.mem_append_right _ (hfinish h)
  | maker =>
    have hmaker : k ∈ s.maker.touches → k.mutex ∈ s.maker.held := by
      cases s.maker <;> cases k <;> simp [MakerPc.touches, MakerPc.held, Container.mutex]
    exact List.mem_append.mpr ((List.mem_append.mp h).imp hmaker hcreate)
  | callback c =>
    have hcallback : k ∈ (s.callbacks c).touches → k.mutex ∈ (s.callbacks c).held := by
      cases s.callbacks c with
      | scan observer rest =>
        cases observer <;> cases k <;> simp [CallbackPc.touches, CallbackPc.held, Container.mutex, stashMutex]
      | _ => cases k <;> simp [CallbackPc.touches, CallbackPc.held, Container.mutex]
    exact hcallback h
  | game g =>
    have hgame : k ∈ (s.manager.conductors g).pc.touches → k.mutex ∈ (s.manager.conductors g).pc.held := by
      cases (s.manager.conductors g).pc <;> simp +contextual [GamePc.touches, GamePc.held, Container.mutex]
    exact hgame h

/-- **No two threads touch a container at the same time**: in every state of
every run, of two threads the next step of one neither reads nor changes it. -/
theorem no_two_touch (as : List Action) :
    Transition.Always step (fun s => ∀ k t u, t ≠ u → s.Untouched t k ∨ s.Untouched u k) initial as := by
  refine (locksOk_always as).mono fun s h k t u hne => ?_
  by_cases ht : k ∈ s.touches t
  · refine .inr (untouched_of_not_touches fun hu => hne ?_)
    exact h.owned.unique (touches_held ht) (touches_held hu)
  · exact .inl (untouched_of_not_touches ht)

end Server

end PokerEngine
