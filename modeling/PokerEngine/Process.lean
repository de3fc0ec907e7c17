/-
The process: the program, and after `main` has returned the destructor of
`ServerManager`, among the threads of the games that have not come to their end.
The members go in the reverse of their order in the class, each with the reset
of its observations; the pairs of `match_conductors_` go one by one, the thread
joined first.
-/
import PokerEngine.ScopedObservation
import PokerEngine.Server

namespace PokerEngine

/-- What `ServerManager` owns, in the order of its members, and itself. -/
inductive Component
  | closureHandler
  | server
  | lobby
  | matchConductorManager
  | matchMaker
  | serverManager
  deriving DecidableEq, Repr

def ManagerObserver.component : ManagerObserver → Component
  | .matchConductorManager => .matchConductorManager
  | .server => .server
  | .matchMaker => .matchMaker

def ClosureObserver.component : ClosureObserver → Component
  | .lobby => .lobby
  | .matchMaker => .matchMaker

/-- What destructors do: a `ScopedObservation` is destroyed, or a `std::thread`,
or the first of the pairs left in `match_conductors_`, in two steps; or an
object with the members it has left. -/
inductive Destruction
  | managerObservation (observer : ManagerObserver)
  | closureObservation (observer : ClosureObserver)
  | thread
  | joinFirst
  | deleteFirst
  | members (c : Component)
  deriving DecidableEq, Repr

/-- The implicit destructors. -/
def Component.destructor : Component → List Destruction
  | .matchMaker => [.closureObservation .matchMaker, .managerObservation .matchMaker, .thread, .members .matchMaker]
  | .matchConductorManager =>
    [.managerObservation .matchConductorManager, .joinFirst, .members .matchConductorManager]
  | .lobby => [.closureObservation .lobby, .members .lobby]
  | .server => [.managerObservation .server, .members .server]
  | .closureHandler => [.members .closureHandler]
  | .serverManager => [.members .serverManager]

/-- `~ServerManager`: `observers_` and the mutexes come before the components in
the class. -/
def serverManagerDestructor : List Destruction :=
  [.matchMaker, .matchConductorManager, .lobby, .server, .closureHandler, .serverManager].flatMap
    Component.destructor

/-! ## What the threads use -/

def CallbackPc.uses : CallbackPc → List Component
  | .idle => []
  | .opened => []
  | .closed => []
  | .lockPush => [.server, .lobby]
  | .push => [.server, .lobby]
  | .lockHandler => [.server, .closureHandler]
  | .notify [] => [.server, .closureHandler]
  | .notify (observer :: _) => [.server, .closureHandler, observer.component]
  | .scan observer _ => [.server, .closureHandler, observer.component]
  | _ => [.server]

def MakerPc.uses : MakerPc → List Component
  | .unstarted => []
  | .returned => []
  | .testStop => [.matchMaker]
  | .lockBuffer => [.matchMaker]
  | .assemble => [.matchMaker]
  | .creating => [.matchMaker, .matchConductorManager]
  | _ => [.matchMaker, .lobby]

/-- A game has its conductor, and the players; its only component is the lobby
it returns them to. -/
def GamePc.uses : GamePc → List Component
  | .pushLock _ _ _ => [.lobby]
  | .push _ _ _ => [.lobby]
  | _ => []

def MainPc.uses : MainPc → List Component
  | .start (observer :: _) => [.serverManager, observer.component]
  | .ending (observer :: _) => [.serverManager, observer.component]
  | .makerJoin _ => [.serverManager, .matchMaker]
  | .makerResetStop _ => [.serverManager, .matchMaker]
  | .serverStop _ => [.serverManager, .server]
  | .managerEnd _ => [.serverManager, .matchConductorManager]
  | _ => [.serverManager]

/-- The components whose members an action reads or writes. -/
def Server.uses (s : Server) : Server.Action → List Component
  | .connect _ => [.server]
  | .disconnect _ => [.server]
  | .socketGone _ => []
  | .quit => [.serverManager]
  | .run .main => s.main.uses
  | .run .maker => s.maker.uses
  | .run (.callback c) => (s.callbacks c).uses
  | .run (.game g) => (s.manager.conductors g).pc.uses

/-! ## The process -/

/-- The first pair of the vector is destroyed: its conductor is deleted, and
`slots` are the pairs left. -/
def MatchConductorManager.withoutFirst (m : MatchConductorManager) (slot : Slot) (slots : List Slot) :
    MatchConductorManager :=
  { m.delete slot.conductor with matchConductors := slots }

def Server.withoutFirst (s : Server) (slot : Slot) (slots : List Slot) : Server :=
  { s with manager := s.manager.withoutFirst slot slots }

/-- The program with its observations, what is destroyed, and what is to be. -/
structure Process where
  server : Server
  observers : Observers
  managerObservation : ManagerObserver → ScopedObservation ManagerObserver
  closureObservation : ClosureObserver → ScopedObservation ClosureObserver
  gone : List Component
  todo : List Destruction

namespace Process

/-- After `Initialize`. -/
def initial : Process :=
  { server := .initial, observers := initializeObservers, managerObservation := fun o => ⟨some o, true⟩,
    closureObservation := fun o => ⟨some o, true⟩, gone := [], todo := serverManagerDestructor }

def halt (p : Process) (f : Fault) : Process := { p with server := p.server.halt f }

/-- One step of `~ServerManager`; `none` while it waits. The reset of an
observation takes the observable's mutex, in `RemoveObserver`. -/
def destroyStep (p : Process) : Option Process :=
  match p.todo with
  | [] => none
  | .managerObservation observer :: todo =>
    if .serverManager ∈ p.gone then some (p.halt .useAfterFree)
    else if p.server.locks .serverManager = none then
      match (p.managerObservation observer).reset p.observers.serverManager with
      | .error f => some (p.halt f)
      | .ok (x, serverManager) =>
        some { p with
          managerObservation := Function.update p.managerObservation observer x
          observers := { p.observers with serverManager }
          todo }
    else none
  | .closureObservation observer :: todo =>
    if .closureHandler ∈ p.gone then some (p.halt .useAfterFree)
    else if p.server.locks .closureHandler = none then
      match (p.closureObservation observer).reset p.observers.closureHandler with
      | .error f => some (p.halt f)
      | .ok (x, closureHandler) =>
        some { p with
          closureObservation := Function.update p.closureObservation observer x
          observers := { p.observers with closureHandler }
          todo }
    else none
  | .thread :: todo =>
    -- `End` has joined a thread that was started; the destructor of a joinable one terminates.
    some (if p.server.maker = .unstarted ∨ p.server.maker = .returned then { p with todo } else p.halt .abort)
  | .joinFirst :: todo =>
    match p.server.manager.matchConductors with
    | [] => some { p with todo }
    | slot :: _ => if p.server.manager.joined slot.thread then some { p with todo := .deleteFirst :: todo } else none
  | .deleteFirst :: todo =>
    match p.server.manager.matchConductors with
    | [] => some (p.halt .pastTheEnd)
    | slot :: slots => some { p with server := p.server.withoutFirst slot slots, todo := .joinFirst :: todo }
  | .members c :: todo => some { p with gone := c :: p.gone, todo }

/-- One step of the process: one of the program's, in which nothing may be used
that is gone, or, when `main` has returned, one of the destructor's. -/
def step (p : Process) (a : Server.Action) : Option Process :=
  if p.server.halted.isSome then none
  else if a = .run .main ∧ p.server.main = .ended then p.destroyStep
  else
    (p.server.step a).map fun server =>
      if (p.server.uses a).any (· ∈ p.gone) then p.halt .useAfterFree else { p with server }

end Process

end PokerEngine
