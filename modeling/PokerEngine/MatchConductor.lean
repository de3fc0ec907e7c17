/-
One game (`match_conductor.h`, `match_conductor.cc`): its players, its flags and
its thread, which greets the players, sleeps, and in `Finish` returns those
still connected to the lobby.

A step is one read or write of an atomic flag, one message, or one move through
a loop. What the thread does outside the conductor — taking the lobby's lock,
pushing a player — is the step's effect, for the model around it to carry out.
-/
import PokerEngine.Lobby

namespace PokerEngine

namespace MatchConductor

inductive FinishReason
  | normal
  | serverFinished
  | playerLeft
  | reasonsNum
  deriving DecidableEq, Repr

end MatchConductor

open MatchConductor (FinishReason)

/-- What a game sends to a player. -/
inductive Message
  | welcome (id : ConnId)
  | finish (reason : FinishReason)
  deriving DecidableEq, Repr

/-- Where a game's thread is in `ConductGame`. In `Finish` it is at player `i`
of the loop; `left` tells which of the two calls it is, the one that
`ConductGame` returns after. `value` is the argument of `Lobby::Push`. -/
inductive GamePc
  | unstarted
  | head
  | welcome (i : Nat)
  | playerLeft
  | sleep
  | finish (i : Nat) (left : Bool)
  | notify (i : Nat) (left : Bool)
  | testStop (i : Nat) (left : Bool)
  | pushLock (i : Nat) (left : Bool) (value : ConnId)
  | push (i : Nat) (left : Bool) (value : ConnId)
  | clear (left : Bool)
  | setStop (left : Bool)
  | returned
  deriving DecidableEq, Repr

/-- The player on the way into the lobby. -/
def GamePc.value : GamePc → Option ConnId
  | .pushLock _ _ value => some value
  | .push _ _ value => some value
  | _ => none

/-- `MatchConductor`, with its thread's place and what was sent so far. -/
structure MatchConductor where
  players : List (Option ConnId)
  stop : Bool
  finishReason : FinishReason
  pc : GamePc
  destroyed : Bool
  sent : List (ConnId × Message)
  deriving DecidableEq, Repr

namespace MatchConductor

/-- What a step of a game's thread does outside its conductor. -/
inductive Effect
  | silent
  | lockLobby
  | push (value : ConnId)
  | fault (f : Fault)
  deriving DecidableEq, Repr

/-- The constructor; it reads every player's `closed` for a log line. -/
def construct (players : List (Option ConnId)) : Except Fault MatchConductor :=
  if players.all Option.isSome then
    .ok { players, stop := false, finishReason := .normal, pc := .unstarted, destroyed := false, sent := [] }
  else .error .nullDereference

def hasFinished (m : MatchConductor) : Bool := m.stop

def forceFinish (m : MatchConductor) : MatchConductor := { m with stop := true }

/-- The destructor, with the destruction of the members. -/
def destroy (m : MatchConductor) : MatchConductor := { m with players := [], destroyed := true }

def goto (m : MatchConductor) (pc : GamePc) : MatchConductor := { m with pc }

def send (m : MatchConductor) (player : ConnId) (message : Message) : MatchConductor :=
  { m with sent := m.sent ++ [(player, message)] }

/-- One step of `ConductGame` and of `Finish`, which it calls. -/
def step (closed alive : ConnId → Bool) (m : MatchConductor) : Option (MatchConductor × Effect) :=
  match m.pc with
  | .unstarted => none
  | .head => some (if m.stop then m.goto .returned else m.goto (.welcome 0), .silent)
  | .welcome i =>
    match m.players[i]? with
    | none => some (m.goto .sleep, .silent)
    | some none => some (m, .fault .nullDereference)
    | some (some player) =>
      if alive player then some ((m.send player (.welcome player)).goto (.welcome (i + 1)), .silent)
      else some (m.goto .playerLeft, .silent)
  | .playerLeft => some ({ m with finishReason := .playerLeft, pc := .finish 0 true }, .silent)
  | .sleep => some (m.goto (.finish 0 false), .silent)
  | .finish i left =>
    match m.players[i]? with
    | none => some (m.goto (.clear left), .silent)
    | some none => some (m, .fault .nullDereference)
    | some (some player) =>
      some (if closed player then m.goto (.finish (i + 1) left) else m.goto (.notify i left), .silent)
  | .notify i left =>
    match m.players[i]? with
    | some (some player) =>
      let m' := if alive player then m.send player (.finish m.finishReason) else m
      some (m'.goto (.testStop i left), .silent)
    | _ => some (m, .fault .nullDereference)
  | .testStop i left =>
    if m.stop then some (m.goto (.finish (i + 1) left), .silent)
    else
      match m.players[i]? with
      | some (some player) =>
        some ({ m with players := m.players.set i none, pc := .pushLock i left player }, .silent)
      | _ => some (m, .fault .nullDereference)
  | .pushLock i left value => some (m.goto (.push i left value), .lockLobby)
  | .push i left value => some (m.goto (.finish (i + 1) left), .push value)
  | .clear left => some ({ m with players := [], pc := .setStop left }, .silent)
  | .setStop left => some ({ m with stop := true, pc := if left then .returned else .head }, .silent)
  | .returned => none

end MatchConductor

end PokerEngine
