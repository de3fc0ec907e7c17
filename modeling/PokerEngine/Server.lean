/-
The server (`server.h`, `server.cc`, `server_manager.h`, `server_manager.cc`,
`connection_closure_handler.h`, `connection_closure_handler.cc`): every thread of
the program, over the lobby, the match maker, the games and their manager.

A step is one read or write of an atomic flag, the taking of a lock, or the
section under a lock with its release. The WebSocket library delivers for each
connection one `Open` and then at most one `Close`, those of one connection one
after the other, those of different connections at the same time.
-/
import PokerEngine.MatchConductorManager
import PokerEngine.MatchMaker

namespace PokerEngine

/-- The classes that implement `ServerManager::Observer`. -/
inductive ManagerObserver
  | matchConductorManager
  | server
  | matchMaker
  deriving DecidableEq, Repr

/-- The classes that implement `ConnectionClosureHandler::Observer`. -/
inductive ClosureObserver
  | lobby
  | matchMaker
  deriving DecidableEq, Repr

/-- The `observers_` of the `ServerManager` and of the
`ConnectionClosureHandler`. -/
structure Observers where
  serverManager : List ManagerObserver
  closureHandler : List ClosureObserver
  deriving DecidableEq, Repr

/-- `ServerManager::AddObserver`. -/
def Observers.addToServerManager (o : Observers) (observer : ManagerObserver) : Observers :=
  { o with serverManager := o.serverManager ++ [observer] }

/-- `ConnectionClosureHandler::AddObserver`. -/
def Observers.addToClosureHandler (o : Observers) (observer : ClosureObserver) : Observers :=
  { o with closureHandler := o.closureHandler ++ [observer] }

/-- `Initialize`: the constructors run in this order, each adding its object. -/
def initializeObservers : Observers :=
  Observers.mk [] []
    |>.addToClosureHandler .lobby
    |>.addToServerManager .matchConductorManager
    |>.addToServerManager .server
    |>.addToServerManager .matchMaker
    |>.addToClosureHandler .matchMaker

/-- The mutexes: `ServerManager::observers_mutex_`, `Server::connections_mutex_`,
`ConnectionClosureHandler::observers_mutex_`, `Lobby::mutex_`,
`MatchMaker::buffer_mutex_` and `MatchConductorManager::conductors_mutex_`. -/
inductive Mutex
  | serverManager
  | connections
  | closureHandler
  | lobby
  | buffer
  | conductors
  deriving DecidableEq, Repr

/-- The threads: the main thread, the match maker's, those of the connections
and those of the games. -/
inductive Thread
  | main
  | maker
  | callback (c : ConnId)
  | game (g : GameId)
  deriving DecidableEq, Repr

/-- Where the thread of a connection is: outside a callback (`idle`, `opened`,
`closed`), in `OnNewConnectionEstablished` or in `OnConnectionClosed`. In the
closure handler's loop, `rest` are the observers still to notify. -/
inductive CallbackPc
  | idle
  | openTestStop
  | lockRegister
  | register
  | lockPush
  | push
  | opened
  | closeTestStop
  | lockClose
  | find
  | setClosed
  | erase
  | lockHandler
  | notify (rest : List ClosureObserver)
  | scan (observer : ClosureObserver) (rest : List ClosureObserver)
  | unlockClose
  | closed
  deriving DecidableEq, Repr

/-- Whether the thread is outside a callback. -/
def CallbackPc.atRest : CallbackPc → Bool
  | .idle => true
  | .opened => true
  | .closed => true
  | _ => false

/-- Where the main thread is in `Start`, `Wait` and `End`. In the loops, `rest`
are the observers still to call; inside the `End` of one, those after it. -/
inductive MainPc
  | lockStart
  | start (rest : List ManagerObserver)
  | waiting
  | lockEnd
  | ending (rest : List ManagerObserver)
  | makerJoin (rest : List ManagerObserver)
  | makerResetStop (rest : List ManagerObserver)
  | serverStop (rest : List ManagerObserver)
  | managerEnd (rest : List ManagerObserver)
  | ended
  deriving DecidableEq, Repr

/-- The whole program. -/
structure Server where
  /-- The WebSocket server accepts connections and delivers callbacks. -/
  listening : Bool
  /-- The connections accepted so far. -/
  clients : List ConnId
  /-- Whether `web_socket` still leads to a socket. -/
  alive : ConnId → Bool
  /-- `Connection::closed`. -/
  closed : ConnId → Bool
  stop : Bool
  connections : List ConnId
  lobby : Lobby
  matchMaker : MatchMaker
  manager : MatchConductorManager
  /-- The holders of the mutexes, `conductors_mutex_` apart. -/
  locks : Mutex → Option Thread
  callbacks : ConnId → CallbackPc
  maker : MakerPc
  main : MainPc
  halted : Option Fault

namespace Server

/-- The program after `Initialize`. -/
def initial : Server :=
  { listening := false, clients := [], alive := fun _ => false, closed := fun _ => false, stop := false,
    connections := [], lobby := .construct, matchMaker := .construct, manager := .initial,
    locks := fun _ => none, callbacks := fun _ => .idle, maker := .unstarted, main := .lockStart,
    halted := none }

def holder (s : Server) : Mutex → Option Thread
  | .conductors => s.manager.conductorsMutex.map fun
    | .creator => .maker
    | .ender => .main
  | m => s.locks m

/-- `lock` on a mutex; `none` while another holds it. -/
def acquire (s : Server) (m : Mutex) (t : Thread) : Option Server :=
  if s.locks m = none then some { s with locks := Function.update s.locks m (some t) } else none

def release (s : Server) (m : Mutex) : Server := { s with locks := Function.update s.locks m none }

/-- The thread of connection `c` goes on at `pc`. -/
def callbackTo (s : Server) (c : ConnId) (pc : CallbackPc) : Server :=
  { s with callbacks := Function.update s.callbacks c pc }

def makerTo (s : Server) (pc : MakerPc) : Server := { s with maker := pc }

def mainTo (s : Server) (pc : MainPc) : Server := { s with main := pc }

def halt (s : Server) (f : Fault) : Server := { s with halted := some f }

/-- The mutex that an observer of closures takes in its `OnConnectionClosed`. -/
def stashMutex : ClosureObserver → Mutex
  | .lobby => .lobby
  | .matchMaker => .buffer

/-- `observer->OnConnectionClosed(id)`, under its mutex. -/
def scanStash (s : Server) (observer : ClosureObserver) (id : ConnId) : Except Fault Server :=
  match observer with
  | .lobby => do
    let (_, lobby) ← s.lobby.onConnectionClosed s.closed id
    return { s with lobby }
  | .matchMaker => do
    let (_, matchMaker) ← s.matchMaker.onConnectionClosed s.closed id
    return { s with matchMaker }

/-- One step of `OnNewConnectionEstablished` or `OnConnectionClosed` for
connection `c`. -/
def callbackStep (s : Server) (c : ConnId) : Option Server :=
  match s.callbacks c with
  | .idle => none
  | .openTestStop => some (s.callbackTo c (if s.stop then .opened else .lockRegister))
  | .lockRegister => (s.acquire .connections (.callback c)).map (·.callbackTo c .register)
  | .register =>
    some ({ s with connections := s.connections ++ [c] }.release .connections |>.callbackTo c .lockPush)
  | .lockPush => (s.acquire .lobby (.callback c)).map (·.callbackTo c .push)
  | .push => some ({ s with lobby := s.lobby.push c }.release .lobby |>.callbackTo c .opened)
  | .opened => none
  | .closeTestStop => some (s.callbackTo c (if s.stop then .closed else .lockClose))
  | .lockClose => (s.acquire .connections (.callback c)).map (·.callbackTo c .find)
  | .find => some (if c ∈ s.connections then s.callbackTo c .setClosed else s.halt .pastTheEnd)
  | .setClosed => some ({ s with closed := Function.update s.closed c true }.callbackTo c .erase)
  | .erase => some ({ s with connections := s.connections.erase c }.callbackTo c .lockHandler)
  | .lockHandler =>
    (s.acquire .closureHandler (.callback c)).map (·.callbackTo c (.notify initializeObservers.closureHandler))
  | .notify [] => some (s.release .closureHandler |>.callbackTo c .unlockClose)
  | .notify (observer :: rest) =>
    (s.acquire (stashMutex observer) (.callback c)).map (·.callbackTo c (.scan observer rest))
  | .scan observer rest =>
    match s.scanStash observer c with
    | .error f => some (s.halt f)
    | .ok s => some (s.release (stashMutex observer) |>.callbackTo c (.notify rest))
  | .unlockClose => some (s.release .connections |>.callbackTo c .closed)
  | .closed => none

/-- One step of the match maker's `Run`. -/
def makerStep (s : Server) : Option Server :=
  match s.maker with
  | .unstarted => none
  | .testStop => some (s.makerTo (if s.matchMaker.stop then .returned else .lockEmpty))
  | .lockEmpty => (s.acquire .lobby .maker).map (·.makerTo .empty)
  | .empty => some (s.release .lobby |>.makerTo (if s.lobby.empty then .lockWait else .lockBoth))
  | .lockWait => (s.acquire .lobby .maker).map (·.makerTo .wait)
  | .wait => some (s.release .lobby |>.makerTo .wake)
  | .wake => (s.acquire .lobby .maker).map (·.makerTo .unlockWait)
  | .unlockWait => some (s.release .lobby |>.makerTo .lockBoth)
  | .lockBoth =>
    if s.locks .lobby = none ∧ s.locks .buffer = none then
      some ({ s with
        locks := Function.update (Function.update s.locks .lobby (some .maker)) .buffer (some .maker)
      }.makerTo .fill)
    else none
  | .fill =>
    let (lobby, matchMaker) := MatchMaker.fill s.lobby s.matchMaker
    some ({ s with lobby, matchMaker }.release .buffer |>.release .lobby |>.makerTo .lockBuffer)
  | .lockBuffer => (s.acquire .buffer .maker).map (·.makerTo .assemble)
  | .assemble =>
    if s.matchMaker.intermediateBuffer.length = gNumberOfPlayersInGame then
      match s.matchMaker.assembleGame with
      | .error f => some (s.halt f)
      | .ok (players, matchMaker) =>
        let manager := { s.manager with create := .testFinish (players.map (Option.map Waiting.id)) }
        some ({ s with matchMaker, manager }.release .buffer |>.makerTo .creating)
    else some (s.release .buffer |>.makerTo .testStop)
  | .creating =>
    if s.manager.create = .idle then some (s.makerTo .testStop)
    else
      match s.manager.createStep with
      | none => none
      | some (.error f) => some (s.halt f)
      | some (.ok manager) => some { s with manager }
  | .returned => none

/-- One step of the thread of game `g`. -/
def gameStep (s : Server) (g : GameId) : Option Server :=
  match s.manager.gameStep s.closed s.alive g with
  | none => none
  | some (.error f) => some (s.halt f)
  | some (.ok (manager, effect)) =>
    match effect with
    | .lockLobby => (s.acquire .lobby (.game g)).map ({ · with manager })
    | .push value => some ({ s with lobby := s.lobby.push value, manager }.release .lobby)
    | _ => some { s with manager }

/-- One step of the main thread. `Wait` comes back by `quit`, below. -/
def mainStep (s : Server) : Option Server :=
  match s.main with
  | .lockStart => (s.acquire .serverManager .main).map (·.mainTo (.start initializeObservers.serverManager))
  | .start [] => some (s.release .serverManager |>.mainTo .waiting)
  | .start (.server :: rest) => some ({ s with listening := true }.mainTo (.start rest))
  | .start (.matchMaker :: rest) =>
    some ((if s.maker = .unstarted then s.makerTo .testStop else s).mainTo (.start rest))
  | .start (.matchConductorManager :: rest) => some (s.mainTo (.start rest))
  | .waiting => none
  | .lockEnd => (s.acquire .serverManager .main).map (·.mainTo (.ending initializeObservers.serverManager.reverse))
  | .ending [] => some (s.release .serverManager |>.mainTo .ended)
  | .ending (.matchMaker :: rest) =>
    some ({ s with matchMaker := { s.matchMaker with stop := true } }.mainTo (.makerJoin rest))
  | .ending (.server :: rest) => some ({ s with stop := true }.mainTo (.serverStop rest))
  | .ending (.matchConductorManager :: rest) =>
    some ({ s with manager := { s.manager with finish := .setFlag } }.mainTo (.managerEnd rest))
  | .makerJoin rest =>
    if s.maker = .unstarted ∨ s.maker = .returned then some (s.mainTo (.makerResetStop rest)) else none
  | .makerResetStop rest =>
    some ({ s with matchMaker := { s.matchMaker with stop := false } }.mainTo (.ending rest))
  | .serverStop rest =>
    if s.clients.all fun c => (s.callbacks c).atRest then
      some ({ s with listening := false }.mainTo (.ending rest))
    else none
  | .managerEnd rest =>
    if s.manager.finish = .done then some (s.mainTo (.ending rest))
    else
      match s.manager.endStep with
      | none => none
      | some (.error f) => some (s.halt f)
      | some (.ok manager) => some { s with manager }
  | .ended => none

/-- What happens: a client connects, its connection is closed, its socket goes
away, the operator quits, or a thread takes a step. -/
inductive Action
  | connect (c : ConnId)
  | disconnect (c : ConnId)
  | socketGone (c : ConnId)
  | quit
  | run (t : Thread)
  deriving DecidableEq, Repr

def threadStep (s : Server) : Thread → Option Server
  | .main => s.mainStep
  | .maker => s.makerStep
  | .callback c => s.callbackStep c
  | .game g => s.gameStep g

/-- One step of the program; none after a fault. -/
def step (s : Server) (a : Action) : Option Server :=
  if s.halted.isSome then none
  else
    match a with
    | .connect c =>
      if s.listening ∧ c ∉ s.clients then
        some ({ s with clients := s.clients ++ [c], alive := Function.update s.alive c true }.callbackTo c
          .openTestStop)
      else none
    | .disconnect c =>
      if s.listening ∧ s.callbacks c = .opened then some (s.callbackTo c .closeTestStop) else none
    | .socketGone c => some { s with alive := Function.update s.alive c false }
    | .quit => if s.main = .waiting then some (s.mainTo .lockEnd) else none
    | .run t => s.threadStep t

theorem acquire_map {s s' : Server} {m : Mutex} {t : Thread} {f : Server → Server}
    (h : (s.acquire m t).map f = some s') :
    s.locks m = none ∧ s' = f { s with locks := Function.update s.locks m (some t) } := by
  unfold acquire at h
  split at h
  next hfree =>
    simp only [Option.map_some, Option.some.injEq] at h
    exact ⟨hfree, h.symm⟩
  next => simp at h

end Server

end PokerEngine
