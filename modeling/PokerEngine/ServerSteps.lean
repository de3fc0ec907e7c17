/-
What each step of the program can do, thread by thread: what it takes or gives
back of the mutexes, where its thread goes, and what it does to the data.

Everything proved about runs is proved from these lists.
-/
import PokerEngine.Server

namespace PokerEngine

/-- What a step does to the mutexes other than `conductors_mutex_`. -/
inductive LockOp
  | keep
  | acquire (ms : List Mutex)
  | release (ms : List Mutex)

namespace LockOp

def apply (t : Thread) (locks : Mutex → Option Thread) : LockOp → Mutex → Option Thread
  | .keep => locks
  | .acquire ms => ms.foldl (fun locks m => Function.update locks m (some t)) locks
  | .release ms => ms.foldl (fun locks m => Function.update locks m none) locks

/-- The mutexes to be taken are free. -/
def Free (locks : Mutex → Option Thread) : LockOp → Prop
  | .acquire ms => ∀ m ∈ ms, locks m = none
  | _ => True

end LockOp

/-- The places where a callback touches nothing but its own place and the
mutexes. -/
def CallbackPc.quiet : CallbackPc → Bool
  | .register => false
  | .push => false
  | .setClosed => false
  | .erase => false
  | .scan _ _ => false
  | _ => true

namespace Server

/-! ## Callbacks -/

/-- Where a callback goes from where, and what it does to the mutexes. -/
inductive CallbackWalk (stop : Bool) : CallbackPc → LockOp → CallbackPc → Prop
  | openTestStop : CallbackWalk stop .openTestStop .keep (if stop then .opened else .lockRegister)
  | lockRegister : CallbackWalk stop .lockRegister (.acquire [.connections]) .register
  | register : CallbackWalk stop .register (.release [.connections]) .lockPush
  | lockPush : CallbackWalk stop .lockPush (.acquire [.lobby]) .push
  | push : CallbackWalk stop .push (.release [.lobby]) .opened
  | closeTestStop : CallbackWalk stop .closeTestStop .keep (if stop then .closed else .lockClose)
  | lockClose : CallbackWalk stop .lockClose (.acquire [.connections]) .find
  | find : CallbackWalk stop .find .keep .setClosed
  | setClosed : CallbackWalk stop .setClosed .keep .erase
  | erase : CallbackWalk stop .erase .keep .lockHandler
  | lockHandler :
    CallbackWalk stop .lockHandler (.acquire [.closureHandler]) (.notify initializeObservers.closureHandler)
  | unlockHandler : CallbackWalk stop (.notify []) (.release [.closureHandler]) .unlockClose
  | notify (observer : ClosureObserver) (rest : List ClosureObserver) :
    CallbackWalk stop (.notify (observer :: rest)) (.acquire [stashMutex observer]) (.scan observer rest)
  | scan (observer : ClosureObserver) (rest : List ClosureObserver) :
    CallbackWalk stop (.scan observer rest) (.release [stashMutex observer]) (.notify rest)
  | unlockClose : CallbackWalk stop .unlockClose (.release [.connections]) .closed

/-- What the callback of `c` does to the data at each place. -/
inductive CallbackData (s : Server) (c : ConnId) : CallbackPc → Server → Prop
  | quiet (pc : CallbackPc) (hpc : pc.quiet = true) : CallbackData s c pc s
  | register : CallbackData s c .register { s with connections := s.connections ++ [c] }
  | push : CallbackData s c .push { s with lobby := s.lobby.push c }
  | setClosed : CallbackData s c .setClosed { s with closed := Function.update s.closed c true }
  | erase : CallbackData s c .erase { s with connections := s.connections.erase c }
  | scanLobby (rest : List ClosureObserver) (n : Nat) (lobby : Lobby)
      (scanned : s.lobby.onConnectionClosed s.closed c = .ok (n, lobby)) :
    CallbackData s c (.scan .lobby rest) { s with lobby }
  | scanBuffer (rest : List ClosureObserver) (n : Nat) (matchMaker : MatchMaker)
      (scanned : s.matchMaker.onConnectionClosed s.closed c = .ok (n, matchMaker)) :
    CallbackData s c (.scan .matchMaker rest) { s with matchMaker }

inductive CallbackStep (s : Server) (c : ConnId) : Server → Prop
  | move (pc pc' : CallbackPc) (op : LockOp) (d : Server) (place : s.callbacks c = pc)
      (walk : CallbackWalk s.stop pc op pc') (free : op.Free s.locks) (data : CallbackData s c pc d) :
    CallbackStep s c { d with
      locks := op.apply (.callback c) s.locks
      callbacks := Function.update s.callbacks c pc' }
  | notFound (place : s.callbacks c = .find) (absent : c ∉ s.connections) :
    CallbackStep s c (s.halt .pastTheEnd)
  | scanFails (observer : ClosureObserver) (rest : List ClosureObserver) (f : Fault)
      (place : s.callbacks c = .scan observer rest) (fails : s.scanStash observer c = .error f) :
    CallbackStep s c (s.halt f)

theorem CallbackStep.of {s s' d : Server} {c : ConnId} {pc pc' : CallbackPc} {op : LockOp}
    (place : s.callbacks c = pc) (walk : CallbackWalk s.stop pc op pc') (free : op.Free s.locks)
    (data : CallbackData s c pc d)
    (h : s' = { d with
      locks := op.apply (.callback c) s.locks
      callbacks := Function.update s.callbacks c pc' } := by rfl) : CallbackStep s c s' :=
  h ▸ .move pc pc' op d place walk free data

theorem free_single {s : Server} {m : Mutex} (h : s.locks m = none) : (LockOp.acquire [m]).Free s.locks := by
  simpa [LockOp.Free] using h

theorem callbackStep_cases {s s' : Server} {c : ConnId} (h : s.callbackStep c = some s') :
    CallbackStep s c s' := by
  unfold callbackStep at h
  cases hpc : s.callbacks c with
  | idle => simp [hpc] at h
  | opened => simp [hpc] at h
  | closed => simp [hpc] at h
  | openTestStop =>
    simp only [hpc, Option.some.injEq] at h
    exact h ▸ .of hpc .openTestStop trivial (.quiet _ rfl)
  | lockRegister =>
    simp only [hpc] at h
    obtain ⟨hfree, rfl⟩ := acquire_map h
    exact .of hpc .lockRegister (free_single hfree) (.quiet _ rfl)
  | register =>
    simp only [hpc, Option.some.injEq] at h
    exact h ▸ .of hpc .register trivial .register
  | lockPush =>
    simp only [hpc] at h
    obtain ⟨hfree, rfl⟩ := acquire_map h
    exact .of hpc .lockPush (free_single hfree) (.quiet _ rfl)
  | push =>
    simp only [hpc, Option.some.injEq] at h
    exact h ▸ .of hpc .push trivial .push
  | closeTestStop =>
    simp only [hpc, Option.some.injEq] at h
    exact h ▸ .of hpc .closeTestStop trivial (.quiet _ rfl)
  | lockClose =>
    simp only [hpc] at h
    obtain ⟨hfree, rfl⟩ := acquire_map h
    exact .of hpc .lockClose (free_single hfree) (.quiet _ rfl)
  | find =>
    simp only [hpc, Option.some.injEq] at h
    split at h
    · exact h ▸ .of hpc .find trivial (.quiet _ rfl)
    next habsent => exact h ▸ .notFound hpc habsent
  | setClosed =>
    simp only [hpc, Option.some.injEq] at h
    exact h ▸ .of hpc .setClosed trivial .setClosed
  | erase =>
    simp only [hpc, Option.some.injEq] at h
    exact h ▸ .of hpc .erase trivial .erase
  | lockHandler =>
    simp only [hpc] at h
    obtain ⟨hfree, rfl⟩ := acquire_map h
    exact .of hpc .lockHandler (free_single hfree) (.quiet _ rfl)
  | notify rest =>
    cases rest with
    | nil =>
      simp only [hpc, Option.some.injEq] at h
      exact h ▸ .of hpc .unlockHandler trivial (.quiet _ rfl)
    | cons observer rest =>
      simp only [hpc] at h
      obtain ⟨hfree, rfl⟩ := acquire_map h
      exact .of hpc (.notify observer rest) (free_single hfree) (.quiet _ rfl)
  | scan observer rest =>
    simp only [hpc] at h
    cases hscan : s.scanStash observer c with
    | error f =>
      simp only [hscan, Option.some.injEq] at h
      exact h ▸ .scanFails observer rest f hpc hscan
    | ok d =>
      simp only [hscan, Option.some.injEq] at h
      cases observer with
      | lobby =>
        cases hs : s.lobby.onConnectionClosed s.closed c with
        | error f => simp [scanStash, hs, bind, Except.bind] at hscan
        | ok p =>
          simp only [scanStash, hs, bind, Except.bind, pure, Except.pure, Except.ok.injEq] at hscan
          subst hscan
          exact h ▸ .of hpc (.scan .lobby rest) trivial (.scanLobby rest p.1 p.2 hs)
      | matchMaker =>
        cases hs : s.matchMaker.onConnectionClosed s.closed c with
        | error f => simp [scanStash, hs, bind, Except.bind] at hscan
        | ok p =>
          simp only [scanStash, hs, bind, Except.bind, pure, Except.pure, Except.ok.injEq] at hscan
          subst hscan
          exact h ▸ .of hpc (.scan .matchMaker rest) trivial (.scanBuffer rest p.1 p.2 hs)
  | unlockClose =>
    simp only [hpc, Option.some.injEq] at h
    exact h ▸ .of hpc .unlockClose trivial (.quiet _ rfl)

/-! ## The match maker -/

inductive MakerWalk (stop : Bool) : MakerPc → LockOp → MakerPc → Prop
  | testStop : MakerWalk stop .testStop .keep (if stop then .returned else .lockEmpty)
  | lockEmpty : MakerWalk stop .lockEmpty (.acquire [.lobby]) .empty
  | empty (isEmpty : Bool) : MakerWalk stop .empty (.release [.lobby]) (if isEmpty then .lockWait else .lockBoth)
  | lockWait : MakerWalk stop .lockWait (.acquire [.lobby]) .wait
  | wait : MakerWalk stop .wait (.release [.lobby]) .wake
  | wake : MakerWalk stop .wake (.acquire [.lobby]) .unlockWait
  | unlockWait : MakerWalk stop .unlockWait (.release [.lobby]) .lockBoth
  | lockBoth : MakerWalk stop .lockBoth (.acquire [.lobby, .buffer]) .fill
  | fill : MakerWalk stop .fill (.release [.buffer, .lobby]) .lockBuffer
  | lockBuffer : MakerWalk stop .lockBuffer (.acquire [.buffer]) .assemble
  | tooFew : MakerWalk stop .assemble (.release [.buffer]) .testStop
  | assemble : MakerWalk stop .assemble (.release [.buffer]) .creating

/-- What the match maker does to the data on the way from a place to the next. -/
inductive MakerData (s : Server) : MakerPc → MakerPc → Server → Prop
  | quiet (pc pc' : MakerPc) (hpc : pc ≠ .fill) (hpc' : pc' ≠ .creating) : MakerData s pc pc' s
  | fill : MakerData s .fill .lockBuffer { s with
      lobby := (MatchMaker.fill s.lobby s.matchMaker).1
      matchMaker := (MatchMaker.fill s.lobby s.matchMaker).2 }
  | assemble (players : List (Option Waiting)) (matchMaker : MatchMaker)
      (full : s.matchMaker.intermediateBuffer.length = gNumberOfPlayersInGame)
      (taken : s.matchMaker.assembleGame = .ok (players, matchMaker)) :
    MakerData s .assemble .creating { s with
      matchMaker
      manager := { s.manager with create := .testFinish (players.map (Option.map Waiting.id)) } }

inductive MakerStep (s : Server) : Server → Prop
  | move (pc pc' : MakerPc) (op : LockOp) (d : Server) (place : s.maker = pc)
      (walk : MakerWalk s.matchMaker.stop pc op pc') (free : op.Free s.locks) (data : MakerData s pc pc' d) :
    MakerStep s { d with
      locks := op.apply .maker s.locks
      maker := pc' }
  | create (manager : MatchConductorManager) (place : s.maker = .creating)
      (created : s.manager.createStep = some (.ok manager)) : MakerStep s { s with manager }
  | created (place : s.maker = .creating) (idle : s.manager.create = .idle) : MakerStep s (s.makerTo .testStop)
  | assembleFails (f : Fault) (fails : s.matchMaker.assembleGame = .error f) : MakerStep s (s.halt f)
  | createFails (f : Fault) (fails : s.manager.createStep = some (.error f)) : MakerStep s (s.halt f)

theorem MakerStep.of {s s' d : Server} {pc pc' : MakerPc} {op : LockOp} (place : s.maker = pc)
    (walk : MakerWalk s.matchMaker.stop pc op pc') (free : op.Free s.locks) (data : MakerData s pc pc' d)
    (h : s' = { d with
      locks := op.apply .maker s.locks
      maker := pc' } := by rfl) : MakerStep s s' :=
  h ▸ .move pc pc' op d place walk free data

theorem makerStep_cases {s s' : Server} (h : s.makerStep = some s') : MakerStep s s' := by
  unfold makerStep at h
  cases hpc : s.maker with
  | unstarted => simp [hpc] at h
  | returned => simp [hpc] at h
  | testStop =>
    simp only [hpc, Option.some.injEq] at h
    exact h ▸ .of hpc .testStop trivial (.quiet _ _ (by simp) (by split <;> simp))
  | lockEmpty =>
    simp only [hpc] at h
    obtain ⟨hfree, rfl⟩ := acquire_map h
    exact .of hpc .lockEmpty (free_single hfree) (.quiet _ _ (by simp) (by simp))
  | empty =>
    simp only [hpc, Option.some.injEq] at h
    exact h ▸ .of hpc (.empty s.lobby.empty) trivial (.quiet _ _ (by simp) (by split <;> simp))
  | lockWait =>
    simp only [hpc] at h
    obtain ⟨hfree, rfl⟩ := acquire_map h
    exact .of hpc .lockWait (free_single hfree) (.quiet _ _ (by simp) (by simp))
  | wait =>
    simp only [hpc, Option.some.injEq] at h
    exact h ▸ .of hpc .wait trivial (.quiet _ _ (by simp) (by simp))
  | wake =>
    simp only [hpc] at h
    obtain ⟨hfree, rfl⟩ := acquire_map h
    exact .of hpc .wake (free_single hfree) (.quiet _ _ (by simp) (by simp))
  | unlockWait =>
    simp only [hpc, Option.some.injEq] at h
    exact h ▸ .of hpc .unlockWait trivial (.quiet _ _ (by simp) (by simp))
  | lockBoth =>
    simp only [hpc] at h
    split at h
    next hfree =>
      simp only [Option.some.injEq] at h
      have hboth : (LockOp.acquire [.lobby, .buffer]).Free s.locks := by simpa [LockOp.Free] using hfree
      exact h ▸ .of hpc .lockBoth hboth (.quiet _ _ (by simp) (by simp))
    next => simp at h
  | fill =>
    simp only [hpc, Option.some.injEq] at h
    exact h ▸ .of hpc .fill trivial .fill
  | lockBuffer =>
    simp only [hpc] at h
    obtain ⟨hfree, rfl⟩ := acquire_map h
    exact .of hpc .lockBuffer (free_single hfree) (.quiet _ _ (by simp) (by simp))
  | assemble =>
    simp only [hpc] at h
    split at h
    next hfull =>
      cases htaken : s.matchMaker.assembleGame with
      | error f =>
        simp only [htaken, Option.some.injEq] at h
        exact h ▸ .assembleFails f htaken
      | ok p =>
        simp only [htaken, Option.some.injEq] at h
        exact h ▸ .of hpc .assemble trivial (.assemble p.1 p.2 hfull htaken)
    next =>
      simp only [Option.some.injEq] at h
      exact h ▸ .of hpc .tooFew trivial (.quiet _ _ (by simp) (by simp))
  | creating =>
    simp only [hpc] at h
    split at h
    next hidle =>
      simp only [Option.some.injEq] at h
      exact h ▸ .created hpc hidle
    next =>
      split at h
      next => simp at h
      next f hfails =>
        simp only [Option.some.injEq] at h
        exact h ▸ .createFails f hfails
      next manager hcreated =>
        simp only [Option.some.injEq] at h
        have hstep := MakerStep.create manager hpc hcreated
        rw [hpc] at hstep
        exact h ▸ hstep

/-! ## Games -/

/-- What a game's step does to the mutexes and the lobby. -/
inductive GameData (s : Server) : MatchConductor.Effect → LockOp → Lobby → Prop
  | silent : GameData s .silent .keep s.lobby
  | lockLobby : GameData s .lockLobby (.acquire [.lobby]) s.lobby
  | push (value : ConnId) : GameData s (.push value) (.release [.lobby]) (s.lobby.push value)

inductive GameStep (s : Server) (g : GameId) : Server → Prop
  | move (c : MatchConductor) (e : MatchConductor.Effect) (op : LockOp) (lobby : Lobby)
      (stepped : (s.manager.conductors g).step s.closed s.alive = some (c, e))
      (live : (s.manager.conductors g).destroyed = false) (free : op.Free s.locks) (data : GameData s e op lobby) :
    GameStep s g { s with
      lobby
      manager := s.manager.setConductor g c
      locks := op.apply (.game g) s.locks }
  | fails (f : Fault) (failed : s.manager.gameStep s.closed s.alive g = some (.error f)) : GameStep s g (s.halt f)

theorem GameStep.of {s s' : Server} {g : GameId} {c : MatchConductor} {e : MatchConductor.Effect} {op : LockOp}
    {lobby : Lobby} (stepped : (s.manager.conductors g).step s.closed s.alive = some (c, e))
    (live : (s.manager.conductors g).destroyed = false) (data : GameData s e op lobby) (free : op.Free s.locks)
    (h : s' = { s with
      lobby
      manager := s.manager.setConductor g c
      locks := op.apply (.game g) s.locks } := by rfl) : GameStep s g s' :=
  h ▸ .move c e op lobby stepped live free data

theorem gameStep_cases {s s' : Server} {g : GameId} (h : s.gameStep g = some s') : GameStep s g s' := by
  unfold gameStep at h
  split at h
  next => simp at h
  next f hfails =>
    simp only [Option.some.injEq] at h
    exact h ▸ .fails f hfails
  next manager e hok =>
    obtain ⟨c, hc, hlive, he, rfl⟩ := MatchConductorManager.gameStep_ok hok
    cases e with
    | silent =>
      simp only [Option.some.injEq] at h
      exact h ▸ .of hc hlive .silent trivial
    | lockLobby =>
      obtain ⟨hfree, rfl⟩ := acquire_map h
      exact .of hc hlive .lockLobby (free_single hfree)
    | push value =>
      simp only [Option.some.injEq] at h
      exact h ▸ .of hc hlive (.push value) trivial
    | fault f => exact absurd rfl (he f)

/-! ## The main thread -/

inductive MainWalk : MainPc → LockOp → MainPc → Prop
  | lockStart : MainWalk .lockStart (.acquire [.serverManager]) (.start initializeObservers.serverManager)
  | unlockStart : MainWalk (.start []) (.release [.serverManager]) .waiting
  | start (observer : ManagerObserver) (rest : List ManagerObserver) :
    MainWalk (.start (observer :: rest)) .keep (.start rest)
  | lockEnd :
    MainWalk .lockEnd (.acquire [.serverManager]) (.ending initializeObservers.serverManager.reverse)
  | unlockEnd : MainWalk (.ending []) (.release [.serverManager]) .ended
  | endMaker (rest : List ManagerObserver) : MainWalk (.ending (.matchMaker :: rest)) .keep (.makerJoin rest)
  | endServer (rest : List ManagerObserver) : MainWalk (.ending (.server :: rest)) .keep (.serverStop rest)
  | endManager (rest : List ManagerObserver) :
    MainWalk (.ending (.matchConductorManager :: rest)) .keep (.managerEnd rest)
  | makerJoin (rest : List ManagerObserver) : MainWalk (.makerJoin rest) .keep (.makerResetStop rest)
  | makerResetStop (rest : List ManagerObserver) : MainWalk (.makerResetStop rest) .keep (.ending rest)
  | serverStop (rest : List ManagerObserver) : MainWalk (.serverStop rest) .keep (.ending rest)
  | managerEnd (rest : List ManagerObserver) : MainWalk (.managerEnd rest) .keep (.ending rest)

/-- What the main thread does to the data, or has waited for, at each place. -/
inductive MainData (s : Server) : MainPc → Server → Prop
  | lockStart : MainData s .lockStart s
  | unlockStart : MainData s (.start []) s
  | startManager (rest : List ManagerObserver) : MainData s (.start (.matchConductorManager :: rest)) s
  | startServer (rest : List ManagerObserver) :
    MainData s (.start (.server :: rest)) { s with listening := true }
  | startMaker (rest : List ManagerObserver) : MainData s (.start (.matchMaker :: rest))
      { s with maker := if s.maker = .unstarted then .testStop else s.maker }
  | lockEnd : MainData s .lockEnd s
  | unlockEnd : MainData s (.ending []) s
  | endMaker (rest : List ManagerObserver) : MainData s (.ending (.matchMaker :: rest))
      { s with matchMaker := { s.matchMaker with stop := true } }
  | endServer (rest : List ManagerObserver) : MainData s (.ending (.server :: rest)) { s with stop := true }
  | endManager (rest : List ManagerObserver) : MainData s (.ending (.matchConductorManager :: rest))
      { s with manager := { s.manager with finish := .setFlag } }
  | makerJoin (rest : List ManagerObserver) (joined : s.maker = .unstarted ∨ s.maker = .returned) :
    MainData s (.makerJoin rest) s
  | makerResetStop (rest : List ManagerObserver) : MainData s (.makerResetStop rest)
      { s with matchMaker := { s.matchMaker with stop := false } }
  | serverStop (rest : List ManagerObserver) (joined : ∀ c ∈ s.clients, (s.callbacks c).atRest = true) :
    MainData s (.serverStop rest) { s with listening := false }
  | managerEnd (rest : List ManagerObserver) (done : s.manager.finish = .done) : MainData s (.managerEnd rest) s

inductive MainStep (s : Server) : Server → Prop
  | move (pc pc' : MainPc) (op : LockOp) (d : Server) (place : s.main = pc) (walk : MainWalk pc op pc')
      (free : op.Free s.locks) (data : MainData s pc d) :
    MainStep s { d with
      locks := op.apply .main s.locks
      main := pc' }
  | finish (manager : MatchConductorManager) (rest : List ManagerObserver) (place : s.main = .managerEnd rest)
      (finished : s.manager.endStep = some (.ok manager)) : MainStep s { s with manager }
  | fails (f : Fault) (failed : s.manager.endStep = some (.error f)) : MainStep s (s.halt f)

theorem MainStep.of {s s' d : Server} {pc pc' : MainPc} {op : LockOp} (place : s.main = pc)
    (walk : MainWalk pc op pc') (free : op.Free s.locks) (data : MainData s pc d)
    (h : s' = { d with
      locks := op.apply .main s.locks
      main := pc' } := by rfl) : MainStep s s' :=
  h ▸ .move pc pc' op d place walk free data

theorem mainStep_cases {s s' : Server} (h : s.mainStep = some s') : MainStep s s' := by
  unfold mainStep at h
  cases hpc : s.main with
  | waiting => simp [hpc] at h
  | ended => simp [hpc] at h
  | lockStart =>
    simp only [hpc] at h
    obtain ⟨hfree, rfl⟩ := acquire_map h
    exact .of hpc .lockStart (free_single hfree) .lockStart
  | lockEnd =>
    simp only [hpc] at h
    obtain ⟨hfree, rfl⟩ := acquire_map h
    exact .of hpc .lockEnd (free_single hfree) .lockEnd
  | start rest =>
    obtain _ | ⟨observer, rest⟩ := rest
    · simp only [hpc, Option.some.injEq] at h
      exact h ▸ .of hpc .unlockStart trivial .unlockStart
    · cases observer with
      | matchConductorManager =>
        simp only [hpc, Option.some.injEq] at h
        exact h ▸ .of hpc (.start _ rest) trivial (.startManager rest)
      | server =>
        simp only [hpc, Option.some.injEq] at h
        exact h ▸ .of hpc (.start _ rest) trivial (.startServer rest)
      | matchMaker =>
        simp only [hpc, Option.some.injEq] at h
        have hdata := MainData.startMaker (s := s) rest
        split at h
        next hun =>
          simp only [hun, if_true] at hdata
          exact h ▸ .of hpc (.start _ rest) trivial hdata
        next hun =>
          simp only [hun, if_false] at hdata
          exact h ▸ .of hpc (.start _ rest) trivial hdata
  | ending rest =>
    obtain _ | ⟨observer, rest⟩ := rest
    · simp only [hpc, Option.some.injEq] at h
      exact h ▸ .of hpc .unlockEnd trivial .unlockEnd
    · cases observer with
      | matchConductorManager =>
        simp only [hpc, Option.some.injEq] at h
        exact h ▸ .of hpc (.endManager rest) trivial (.endManager rest)
      | server =>
        simp only [hpc, Option.some.injEq] at h
        exact h ▸ .of hpc (.endServer rest) trivial (.endServer rest)
      | matchMaker =>
        simp only [hpc, Option.some.injEq] at h
        exact h ▸ .of hpc (.endMaker rest) trivial (.endMaker rest)
  | makerJoin rest =>
    simp only [hpc] at h
    split at h
    next hjoined =>
      simp only [Option.some.injEq] at h
      exact h ▸ .of hpc (.makerJoin rest) trivial (.makerJoin rest hjoined)
    next => simp at h
  | makerResetStop rest =>
    simp only [hpc, Option.some.injEq] at h
    exact h ▸ .of hpc (.makerResetStop rest) trivial (.makerResetStop rest)
  | serverStop rest =>
    simp only [hpc] at h
    split at h
    next hjoined =>
      simp only [Option.some.injEq] at h
      exact h ▸ .of hpc (.serverStop rest) trivial
        (.serverStop rest fun c hc => List.all_eq_true.mp hjoined c hc)
    next => simp at h
  | managerEnd rest =>
    simp only [hpc] at h
    split at h
    next hdone =>
      simp only [Option.some.injEq] at h
      exact h ▸ .of hpc (.managerEnd rest) trivial (.managerEnd rest hdone)
    next =>
      split at h
      next => simp at h
      next f hfails =>
        simp only [Option.some.injEq] at h
        exact h ▸ .fails f hfails
      next manager hfinished =>
        simp only [Option.some.injEq] at h
        have hstep := MainStep.finish manager rest hpc hfinished
        rw [hpc] at hstep
        exact h ▸ hstep

/-! ## What the threads leave to each other -/

theorem CallbackStep.frame {s s' : Server} {c : ConnId} (hstep : CallbackStep s c s') :
    s'.main = s.main ∧ s'.maker = s.maker ∧ s'.manager = s.manager := by
  cases hstep with
  | move pc pc' op d place walk free data => cases data <;> exact ⟨rfl, rfl, rfl⟩
  | _ => exact ⟨rfl, rfl, rfl⟩

theorem MakerStep.frame {s s' : Server} (hstep : MakerStep s s') :
    s'.main = s.main ∧ s'.callbacks = s.callbacks ∧ s'.closed = s.closed := by
  cases hstep with
  | move pc pc' op d place walk free data => cases data <;> exact ⟨rfl, rfl, rfl⟩
  | _ => exact ⟨rfl, rfl, rfl⟩

theorem GameStep.frame {s s' : Server} {g : GameId} (hstep : GameStep s g s') :
    s'.main = s.main ∧ s'.callbacks = s.callbacks ∧ s'.closed = s.closed := by
  cases hstep <;> exact ⟨rfl, rfl, rfl⟩

theorem MainStep.frame {s s' : Server} (hstep : MainStep s s') :
    s'.callbacks = s.callbacks ∧ s'.closed = s.closed ∧ s'.lobby = s.lobby := by
  cases hstep with
  | move pc pc' op d place walk free data => cases data <;> exact ⟨rfl, rfl, rfl⟩
  | _ => exact ⟨rfl, rfl, rfl⟩

/-! ## Every step -/

/-- What a step of the program can be. -/
inductive Step (s : Server) : Action → Server → Prop
  | connect (c : ConnId) (listening : s.listening = true) (fresh : c ∉ s.clients) :
    Step s (.connect c) { s with
      clients := s.clients ++ [c]
      alive := Function.update s.alive c true
      callbacks := Function.update s.callbacks c .openTestStop }
  | disconnect (c : ConnId) (listening : s.listening = true) (opened : s.callbacks c = .opened) :
    Step s (.disconnect c) (s.callbackTo c .closeTestStop)
  | socketGone (c : ConnId) : Step s (.socketGone c) { s with alive := Function.update s.alive c false }
  | quit (waiting : s.main = .waiting) : Step s .quit (s.mainTo .lockEnd)
  | main (s' : Server) (step : MainStep s s') : Step s (.run .main) s'
  | maker (s' : Server) (step : MakerStep s s') : Step s (.run .maker) s'
  | callback (c : ConnId) (s' : Server) (step : CallbackStep s c s') : Step s (.run (.callback c)) s'
  | game (g : GameId) (s' : Server) (step : GameStep s g s') : Step s (.run (.game g)) s'

theorem step_cases {s s' : Server} {a : Action} (h : s.step a = some s') : s.halted = none ∧ Step s a s' := by
  unfold step at h
  split at h
  next => simp at h
  next hhalted =>
    refine ⟨by simpa using hhalted, ?_⟩
    cases a with
    | connect c =>
      simp only at h
      split at h
      next hc =>
        simp only [Option.some.injEq] at h
        exact h ▸ .connect c hc.1 hc.2
      next => simp at h
    | disconnect c =>
      simp only at h
      split at h
      next hc =>
        simp only [Option.some.injEq] at h
        exact h ▸ .disconnect c hc.1 hc.2
      next => simp at h
    | socketGone c =>
      simp only [Option.some.injEq] at h
      exact h ▸ .socketGone c
    | quit =>
      simp only at h
      split at h
      next hw =>
        simp only [Option.some.injEq] at h
        exact h ▸ .quit hw
      next => simp at h
    | run t =>
      cases t with
      | main => exact .main s' (mainStep_cases h)
      | maker => exact .maker s' (makerStep_cases h)
      | callback c => exact .callback c s' (callbackStep_cases h)
      | game g => exact .game g s' (gameStep_cases h)

end Server

end PokerEngine
