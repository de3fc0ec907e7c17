/-
The messages of the WebSocket library (`Server::MessageHandler`, `server.cc`),
each handled to its end, and the id that a connection is known by.

That id is a string of the library's. The constructor of `Connection` reads it
with `std::stoull`, `OnConnectionClosed` with `std::from_chars`, and the two do
not take the same strings. `tracked_iff` is when the server keeps track of its
connections all the same, `tracked_of_decimal` that it does for decimal numerals.
-/
import Mathlib.Data.List.Nodup
import Mathlib.Logic.Embedding.Basic
import PokerEngine.CloseEvent
import PokerEngine.Numerals

namespace PokerEngine

open Numerals

/-- `ix::WebSocketMessageType`; `opens` and `closes` are `Open` and `Close`. -/
inductive MessageType
  | message
  | opens
  | closes
  | error
  | ping
  | pong
  | fragment
  deriving DecidableEq, Repr

/-- How a call ends that does not return. -/
inductive Escape
  | threw (e : ReadError)
  | fault (f : Fault)
  deriving DecidableEq, Repr

/-- `Server::MessageHandler`: the id that `state` holds, `none` for a null
pointer, and whether `server` is set. -/
structure MessageHandler where
  state : Option (List Char)
  server : Bool
  deriving DecidableEq, Repr

namespace Server

/-- Connection `id` is registered and pushed to the lobby. It is new, with its
`closed` not set. -/
def withConnection (s : Server) (id : ConnId) : Server :=
  { s with
    closed := Function.update s.closed id false
    connections := s.connections ++ [id]
    lobby := s.lobby.push id }

/-- `OnNewConnectionEstablished`. The connection is constructed before anything
is touched. -/
def onNewConnectionEstablished (s : Server) (state : Option (List Char)) : Except Escape Server :=
  if s.stop then .ok s
  else
    match state with
    | none => .error (.fault .nullDereference)
    | some sid =>
      match stoull 64 sid with
      | .error e => .error (.threw e)
      | .ok id => .ok (s.withConnection id)

/-- `OnConnectionClosed(state)`: the id starts as 0, and the result of
`std::from_chars` is not looked at. -/
def onStateClosed (s : Server) (sid : List Char) : Except Escape Server :=
  match s.onConnectionClosed (fromChars 64 sid 0) with
  | .error f => .error (.fault f)
  | .ok s => .ok s

end Server

/-- `MessageHandler::operator()`. -/
def MessageHandler.call (handler : MessageHandler) (type : MessageType) (s : Server) : Except Escape Server :=
  match type with
  | .opens => if !handler.server then .ok s else s.onNewConnectionEstablished handler.state
  | .closes =>
    match handler.state with
    -- The id is printed before `state` is tested.
    | none => .error (.fault .nullDereference)
    | some sid => if handler.server then s.onStateClosed sid else .ok s
  | .error => .ok s
  | .message => .ok s
  | .fragment => .ok s
  | .ping => .ok s
  | .pong => .ok s

theorem MessageHandler.call_opens {s : Server} {state : List Char} {n : ConnId} (hstop : s.stop = false)
    (hn : stoull 64 state = .ok n) : MessageHandler.call ⟨some state, true⟩ .opens s = .ok (s.withConnection n) := by
  simp [MessageHandler.call, Server.onNewConnectionEstablished, hstop, hn]

/-- The server, the players in games, and the sockets whose `Open` and whose
`Close` have been delivered, in order. Sockets are the library's: `κ` names
them. -/
structure Delivery (κ : Type) where
  server : Server
  seated : List ConnId
  opened : List κ
  gone : List κ
  ended : Option Escape

/-- What happens next: a message of socket `k`, one of the match maker's two
sections, or a player given back to the lobby at the end of a game. -/
inductive Happening (κ : Type)
  | message (k : κ) (type : MessageType)
  | fill
  | assemble
  | giveBack (c : ConnId)

namespace Delivery

variable {κ : Type}

/-- The server before the first message. -/
def initial : Delivery κ := ⟨.initial, [], [], [], none⟩

/-- A call ended with `result`. -/
def returns (d : Delivery κ) : Except Escape Server → Delivery κ
  | .ok s => { d with server := s }
  | .error e => { d with ended := some e }

/-- The message of `k` is recorded. -/
def note (d : Delivery κ) (k : κ) : MessageType → Delivery κ
  | .opens => { d with opened := d.opened ++ [k] }
  | .closes => { d with gone := d.gone ++ [k] }
  | _ => d

/-- The library has kept to its order. -/
structure Orderly (d : Delivery κ) : Prop where
  opened : d.opened.Nodup
  gone : ∀ k ∈ d.gone, k ∈ d.opened

theorem Orderly.initial : (initial : Delivery κ).Orderly := ⟨.nil, by simp [Delivery.initial]⟩

@[simp] theorem opened_returns {d : Delivery κ} (r : Except Escape Server) : (d.returns r).opened = d.opened := by
  cases r <;> rfl

@[simp] theorem gone_returns {d : Delivery κ} (r : Except Escape Server) : (d.returns r).gone = d.gone := by
  cases r <;> rfl

/-- The library may deliver this message: one `Open` for each socket, and then
at most one `Close`. -/
def Due [DecidableEq κ] (d : Delivery κ) (k : κ) : MessageType → Bool
  | .opens => k ∉ d.opened
  | .closes => k ∈ d.opened ∧ k ∉ d.gone
  | _ => true

/-- No two sockets have ids that are read as one number. -/
def Distinct (sid : κ → List Char) : Prop := ∀ j k c, stoull 64 (sid j) = .ok c → stoull 64 (sid k) = .ok c → j = k

/-- The id of an opening socket is one that `std::stoull` takes, that of a closing
one is one that `std::from_chars` reads the same. -/
def Readable (sid : κ → List Char) (_ : Delivery κ) : Happening κ → Prop
  | .message k .opens => ∃ c, stoull 64 (sid k) = .ok c
  | .message k .closes => StartsWithDigit (sid k) ∨ stoull 64 (sid k) = .ok 0
  | _ => True

/-- The sockets numbered, each number once, and the number written out. -/
def decimal (ids : κ ↪ UInt64) (k : κ) : List Char := Nat.toDigits 10 (ids k).toNat

theorem stoull_decimal (ids : κ ↪ UInt64) (k : κ) : stoull 64 (decimal ids k) = .ok (ids k).toNat :=
  stoull_toDigits (ids k).toNat_lt

theorem distinct_decimal (ids : κ ↪ UInt64) : Distinct (decimal ids) := by
  intro j k c hj hk
  rw [stoull_decimal, Except.ok.injEq] at hj hk
  exact ids.injective (UInt64.toNat.inj (hj.trans hk.symm))

theorem readable_decimal (ids : κ ↪ UInt64) (d : Delivery κ) (a : Happening κ) : d.Readable (decimal ids) a := by
  cases a with
  | message k type =>
    cases type with
    | opens => exact ⟨_, stoull_decimal ids k⟩
    | closes => exact .inl (startsWithDigit_toDigits _)
    | _ => trivial
  | _ => trivial

variable [DecidableEq κ] (sid : κ → List Char)

/-- One happening; `sid k` is the id that the library gave to socket `k`. -/
def step (d : Delivery κ) (a : Happening κ) : Option (Delivery κ) :=
  if d.ended.isSome then none
  else
    match a with
    | .message k type =>
      if d.Due k type then some ((d.note k type).returns (MessageHandler.call ⟨some (sid k), true⟩ type d.server))
      else none
    | .fill =>
      let (lobby, matchMaker) := MatchMaker.fill d.server.lobby d.server.matchMaker
      some { d with server := { d.server with lobby, matchMaker } }
    | .assemble =>
      if d.server.matchMaker.intermediateBuffer.length = gNumberOfPlayersInGame then
        match d.server.matchMaker.assembleGame with
        | .error f => some { d with ended := some (.fault f) }
        | .ok (players, matchMaker) =>
          some { d with
            server := { d.server with matchMaker }
            seated := d.seated ++ players.reduceOption.map Waiting.id }
      else none
    | .giveBack c =>
      if c ∈ d.seated then
        some { d with
          server := if d.server.closed c then d.server else { d.server with lobby := d.server.lobby.push c }
          seated := d.seated.erase c }
      else none

/-- The ids of the sockets that are open, in the order in which they opened. -/
def registered (d : Delivery κ) : List ConnId :=
  (d.opened.filter (· ∉ d.gone)).filterMap fun k => (stoull 64 (sid k)).toOption

/-- The server keeps track: nothing has gone wrong, the connections are those of
the open sockets in order, each is marked closed once its socket is, and the
players who wait are connected. -/
structure Tracked (d : Delivery κ) : Prop where
  running : d.ended = none
  stop : d.server.stop = false
  accepted : ∀ k ∈ d.opened, ∃ c, stoull 64 (sid k) = .ok c
  connections : d.server.connections = d.registered sid
  closed : ∀ k ∈ d.opened, ∀ c, stoull 64 (sid k) = .ok c → (d.server.closed c = true ↔ k ∈ d.gone)
  lobby : ∀ w ∈ d.server.lobby.data, w.id ∈ d.server.connections
  buffer : ∀ w ∈ d.server.matchMaker.intermediateBuffer, w.id ∈ d.server.connections
  seated : ∀ c ∈ d.seated, ∃ k ∈ d.opened, stoull 64 (sid k) = .ok c

section

variable {sid} {d d' : Delivery κ} {k : κ} {c n : ConnId}

theorem toOption_eq_some {ε α : Type} {r : Except ε α} {a : α} : r.toOption = some a ↔ r = .ok a := by
  cases r <;> simp [Except.toOption]

theorem mem_registered : c ∈ d.registered sid ↔ ∃ k ∈ d.opened, k ∉ d.gone ∧ stoull 64 (sid k) = .ok c := by
  simp [registered, toOption_eq_some, and_assoc]

theorem nodup_registered (h : Distinct sid) (ho : d.Orderly) : (d.registered sid).Nodup := by
  refine List.Nodup.filterMap (fun j k c hj hk => ?_) (ho.opened.filter _)
  rw [Option.mem_def, toOption_eq_some] at hj hk
  exact h j k c hj hk

/-- The socket that opened last is the last of the registered. -/
theorem registered_opens (ho : d.Orderly) (hk : k ∉ d.opened) (hn : stoull 64 (sid k) = .ok n) :
    (d.note k .opens).registered sid = d.registered sid ++ [n] := by
  have hgone : k ∉ d.gone := fun hg => hk (ho.gone k hg)
  have hlast : (stoull 64 (sid k)).toOption = some n := toOption_eq_some.mpr hn
  have hfilter : [k].filter (· ∉ d.gone) = [k] := by simp [hgone]
  show ((d.opened ++ [k]).filter (· ∉ d.gone)).filterMap (fun k => (stoull 64 (sid k)).toOption) = _
  rw [List.filter_append, List.filterMap_append, hfilter]
  simp [registered, hlast]

/-- The socket that closes is taken out. -/
theorem registered_closes (h : Distinct sid) (hn : stoull 64 (sid k) = .ok n) :
    (d.note k .closes).registered sid = (d.registered sid).filter (· ≠ n) := by
  simp only [registered, note, List.filterMap_filter, List.filter_filterMap]
  refine List.filterMap_congr fun j _ => ?_
  by_cases hj : j ∈ d.gone
  · simp [hj]
  by_cases hjk : j = k
  · subst hjk
    simp [hj, toOption_eq_some.mpr hn, Option.filter]
  · cases hm : (stoull 64 (sid j)).toOption with
    | none => simp [hj, hjk]
    | some m =>
      have hne : m ≠ n := fun he => hjk (h j k n (he ▸ toOption_eq_some.mp hm) hn)
      simp [hj, hjk, Option.filter, hne]

/-! ## What one happening keeps -/

theorem Tracked.initial : (initial : Delivery κ).Tracked sid where
  running := rfl
  stop := rfl
  accepted := by simp [Delivery.initial]
  connections := rfl
  closed := by simp [Delivery.initial]
  lobby := by simp [Delivery.initial, Server.initial, Lobby.construct]
  buffer := by simp [Delivery.initial, Server.initial, MatchMaker.construct]
  seated := by simp [Delivery.initial]

/-- A happening, with what it asks for and what it leaves behind. -/
inductive Step (sid : κ → List Char) (d : Delivery κ) : Happening κ → Delivery κ → Prop
  | message (k : κ) (type : MessageType) (due : d.Due k type = true) :
    Step sid d (.message k type) ((d.note k type).returns (MessageHandler.call ⟨some (sid k), true⟩ type d.server))
  | fill : Step sid d .fill { d with
      server := { d.server with
        lobby := (MatchMaker.fill d.server.lobby d.server.matchMaker).1
        matchMaker := (MatchMaker.fill d.server.lobby d.server.matchMaker).2 } }
  | assemble (matchMaker : MatchMaker) (empty : matchMaker.intermediateBuffer = []) :
    Step sid d .assemble { d with
      server := { d.server with matchMaker }
      seated := d.seated ++ d.server.matchMaker.intermediateBuffer.map Waiting.id }
  | giveBack (c : ConnId) (seated : c ∈ d.seated) : Step sid d (.giveBack c) { d with
      server := if d.server.closed c then d.server else { d.server with lobby := d.server.lobby.push c }
      seated := d.seated.erase c }

theorem step_cases {a : Happening κ} (h : step sid d a = some d') : d.ended = none ∧ Step sid d a d' := by
  unfold Delivery.step at h
  split at h
  next => simp at h
  next hended =>
    refine ⟨by simpa using hended, ?_⟩
    cases a with
    | message k type =>
      simp only at h
      split at h
      next hdue =>
        simp only [Option.some.injEq] at h
        exact h ▸ .message k type hdue
      next => simp at h
    | fill =>
      simp only [Option.some.injEq] at h
      exact h ▸ .fill
    | assemble =>
      simp only at h
      split at h
      next hfull =>
        have hplayers : (d.server.matchMaker.intermediateBuffer.map some).reduceOption =
            d.server.matchMaker.intermediateBuffer :=
          (List.filterMap_map ..).trans List.filterMap_some
        simp only [MatchMaker.assembleGame_of_full hfull, hplayers, Option.some.injEq] at h
        exact h ▸ .assemble _ rfl
      next => simp at h
    | giveBack c =>
      simp only at h
      split at h
      next hseated =>
        simp only [Option.some.injEq] at h
        exact h ▸ .giveBack c hseated
      next => simp at h

theorem Orderly.step {a : Happening κ} (ho : d.Orderly) (h : step sid d a = some d') : d'.Orderly := by
  cases (step_cases h).2 with
  | message k type due =>
    cases type with
    | opens =>
      have hk : k ∉ d.opened := by simpa [Due] using due
      refine ⟨?_, fun j hj => ?_⟩
      · rw [opened_returns, note, ← List.concat_eq_append]
        exact ho.opened.concat hk
      · rw [gone_returns] at hj
        rw [opened_returns]
        exact List.mem_append_left _ (ho.gone j hj)
    | closes =>
      have hk : k ∈ d.opened ∧ k ∉ d.gone := by simpa [Due] using due
      refine ⟨(opened_returns _).symm ▸ ho.opened, fun j hj => ?_⟩
      rw [gone_returns] at hj
      rw [opened_returns]
      rcases List.mem_append.mp hj with hj | hj
      · exact ho.gone j hj
      · exact List.mem_singleton.mp hj ▸ hk.1
    | message => exact ho
    | error => exact ho
    | ping => exact ho
    | pong => exact ho
    | fragment => exact ho
  | fill => exact ⟨ho.opened, ho.gone⟩
  | assemble => exact ⟨ho.opened, ho.gone⟩
  | giveBack => exact ⟨ho.opened, ho.gone⟩

theorem Tracked.mem_connections (h : d.Tracked sid) :
    c ∈ d.server.connections ↔ ∃ k ∈ d.opened, k ∉ d.gone ∧ stoull 64 (sid k) = .ok c := by
  rw [h.connections, mem_registered]

/-- A connected player is not marked closed. -/
theorem Tracked.open_of_mem (h : d.Tracked sid) (hc : c ∈ d.server.connections) : d.server.closed c = false := by
  obtain ⟨k, hk, hgone, hread⟩ := h.mem_connections.mp hc
  rw [← Bool.not_eq_true, h.closed k hk c hread]
  exact hgone

theorem Tracked.allOpen (h : d.Tracked sid) : d.server.AllOpen where
  connections _ hc := h.open_of_mem hc
  lobby w hw := h.open_of_mem (h.lobby w hw)
  buffer w hw := h.open_of_mem (h.buffer w hw)

/-- `Open`. -/
theorem Tracked.opens (hsid : Distinct sid) (ho : d.Orderly) (h : d.Tracked sid) (hk : k ∉ d.opened)
    (hn : stoull 64 (sid k) = .ok n) :
    ((d.note k .opens).returns (MessageHandler.call ⟨some (sid k), true⟩ .opens d.server)).Tracked sid := by
  rw [MessageHandler.call_opens h.stop hn]
  refine ⟨h.running, h.stop, fun j hj => ?_, ?_, fun j hj c hc => ?_, fun w hw => ?_, fun w hw => ?_, fun c hc => ?_⟩
  · rcases List.mem_append.mp hj with hj | hj
    · exact h.accepted j hj
    · exact ⟨n, List.mem_singleton.mp hj ▸ hn⟩
  · show d.server.connections ++ [n] = _
    rw [h.connections]
    exact (registered_opens ho hk hn).symm
  · show Function.update d.server.closed n false c = true ↔ j ∈ d.gone
    rcases List.mem_append.mp hj with hj | hj
    · have hne : c ≠ n := fun he => hk (hsid j k n (he ▸ hc) hn ▸ hj)
      rw [Function.update_of_ne hne]
      exact h.closed j hj c hc
    · rw [List.mem_singleton.mp hj] at hc ⊢
      have hcn : c = n := Except.ok.inj (hc.symm.trans hn)
      have hopen : k ∉ d.gone := fun hg => hk (ho.gone k hg)
      simp [hcn, hopen]
  · rcases List.mem_append.mp hw with hw | hw
    · exact List.mem_append_left _ (h.lobby w hw)
    · exact List.mem_append_right _ (by simp [List.mem_singleton.mp hw])
  · exact List.mem_append_left _ (h.buffer w hw)
  · obtain ⟨j, hj, hread⟩ := h.seated c hc
    exact ⟨j, List.mem_append_left _ hj, hread⟩

theorem Tracked.call_closes (hsid : Distinct sid) (ho : d.Orderly) (h : d.Tracked sid)
    (hmem : fromChars 64 (sid k) 0 ∈ d.server.connections) :
    MessageHandler.call ⟨some (sid k), true⟩ .closes d.server =
      .ok (d.server.withoutConnection (fromChars 64 (sid k) 0)) := by
  have hdistinct : d.server.connections.Nodup := h.connections ▸ nodup_registered hsid ho
  simp [MessageHandler.call, Server.onStateClosed, Server.onConnectionClosed_of_mem h.stop hdistinct h.allOpen hmem]

/-- `Close`, when both read the same number. -/
theorem Tracked.closes (hsid : Distinct sid) (ho : d.Orderly) (h : d.Tracked sid) (hk : k ∈ d.opened)
    (hgone : k ∉ d.gone) (hn : stoull 64 (sid k) = .ok n) (hread : fromChars 64 (sid k) 0 = n) :
    ((d.note k .closes).returns (MessageHandler.call ⟨some (sid k), true⟩ .closes d.server)).Tracked sid := by
  have hmem : n ∈ d.server.connections := h.mem_connections.mpr ⟨k, hk, hgone, hn⟩
  rw [h.call_closes hsid ho (hread.symm ▸ hmem), hread]
  refine ⟨h.running, h.stop, h.accepted, ?_, fun j hj c hc => ?_, fun w hw => ?_, fun w hw => ?_, h.seated⟩
  · show d.server.connections.filter (· ≠ n) = _
    rw [h.connections]
    exact (registered_closes hsid hn).symm
  · show Function.update d.server.closed n true c = true ↔ j ∈ d.gone ++ [k]
    by_cases hjk : j = k
    · subst hjk
      have hcn : c = n := Except.ok.inj (hc.symm.trans hn)
      simp [hcn]
    · have hne : c ≠ n := fun he => hjk (hsid j k n (he ▸ hc) hn)
      simp [Function.update_of_ne hne, h.closed j hj c hc, hjk]
  · obtain ⟨hw, hne⟩ := List.mem_filter.mp hw
    exact List.mem_filter.mpr ⟨h.lobby w hw, hne⟩
  · obtain ⟨hw, hne⟩ := List.mem_filter.mp hw
    exact List.mem_filter.mpr ⟨h.buffer w hw, hne⟩

/-- `Close` otherwise: the connection of id 0 is taken out in place of this one,
or there is none. -/
theorem Tracked.not_closes (hsid : Distinct sid) (ho : d.Orderly) (h : d.Tracked sid) (hk : k ∈ d.opened)
    (hgone : k ∉ d.gone) (hn : stoull 64 (sid k) = .ok n) (hread : fromChars 64 (sid k) 0 ≠ n) :
    ¬ ((d.note k .closes).returns (MessageHandler.call ⟨some (sid k), true⟩ .closes d.server)).Tracked sid := by
  intro h'
  have hmem : n ∈ d.server.connections := h.mem_connections.mpr ⟨k, hk, hgone, hn⟩
  by_cases hother : fromChars 64 (sid k) 0 ∈ d.server.connections
  · rw [h.call_closes hsid ho hother] at h'
    -- The socket is gone, and its connection still there.
    have hstays : n ∈ d.server.connections.filter (· ≠ fromChars 64 (sid k) 0) :=
      List.mem_filter.mpr ⟨hmem, by simpa using hread.symm⟩
    obtain ⟨j, _, hj, hjn⟩ := h'.mem_connections.mp hstays
    exact hj (List.mem_append_right _ (List.mem_singleton.mpr (hsid j k n hjn hn)))
  · have hcall : MessageHandler.call ⟨some (sid k), true⟩ .closes d.server = .error (.fault .pastTheEnd) := by
      simp [MessageHandler.call, Server.onStateClosed, Server.onConnectionClosed_of_not_mem h.stop hother]
    rw [hcall] at h'
    exact absurd h'.running (by simp [returns])

/-- What `fill` puts in the lobby and the buffer was in one of them. -/
theorem mem_fill {lobby : Lobby} {m : MatchMaker} {w : Waiting}
    (hw : w ∈ (MatchMaker.fill lobby m).1.data ∨ w ∈ (MatchMaker.fill lobby m).2.intermediateBuffer) :
    w ∈ lobby.data ∨ w ∈ m.intermediateBuffer := by
  cases hdata : lobby.data with
  | nil => simpa [MatchMaker.fill, hdata] using hw
  | cons front rest =>
    by_cases hfull : m.intermediateBuffer.length = gNumberOfPlayersInGame
    · simpa [MatchMaker.fill, hdata, hfull] using hw
    · simp only [MatchMaker.fill, hdata, hfull, if_false, List.mem_append, List.mem_singleton] at hw
      rw [List.mem_cons]
      tauto

theorem Tracked.fill (h : d.Tracked sid) :
    Tracked sid { d with
      server := { d.server with
        lobby := (MatchMaker.fill d.server.lobby d.server.matchMaker).1
        matchMaker := (MatchMaker.fill d.server.lobby d.server.matchMaker).2 } } :=
  have hwaits : ∀ w, w ∈ d.server.lobby.data ∨ w ∈ d.server.matchMaker.intermediateBuffer →
      w.id ∈ d.server.connections := fun w hw => hw.elim (h.lobby w) (h.buffer w)
  ⟨h.running, h.stop, h.accepted, h.connections, h.closed, fun w hw => hwaits w (mem_fill (.inl hw)),
    fun w hw => hwaits w (mem_fill (.inr hw)), h.seated⟩

theorem Tracked.assemble (h : d.Tracked sid) {matchMaker : MatchMaker} (hempty : matchMaker.intermediateBuffer = []) :
    Tracked sid { d with
      server := { d.server with matchMaker }
      seated := d.seated ++ d.server.matchMaker.intermediateBuffer.map Waiting.id } := by
  refine ⟨h.running, h.stop, h.accepted, h.connections, h.closed, h.lobby, ?_, fun c hc => ?_⟩
  · show ∀ w ∈ matchMaker.intermediateBuffer, _
    simp [hempty]
  · rcases List.mem_append.mp hc with hc | hc
    · exact h.seated c hc
    · obtain ⟨w, hw, rfl⟩ := List.mem_map.mp hc
      obtain ⟨k, hk, _, hread⟩ := h.mem_connections.mp (h.buffer w hw)
      exact ⟨k, hk, hread⟩

theorem Tracked.giveBack (h : d.Tracked sid) (hc : c ∈ d.seated) :
    Tracked sid { d with
      server := if d.server.closed c then d.server else { d.server with lobby := d.server.lobby.push c }
      seated := d.seated.erase c } := by
  have hseated : ∀ c' ∈ d.seated.erase c, ∃ k ∈ d.opened, stoull 64 (sid k) = .ok c' :=
    fun c' hc' => h.seated c' (List.mem_of_mem_erase hc')
  by_cases hclosed : d.server.closed c = true
  · rw [if_pos hclosed]
    exact ⟨h.running, h.stop, h.accepted, h.connections, h.closed, h.lobby, h.buffer, hseated⟩
  rw [if_neg hclosed]
  refine ⟨h.running, h.stop, h.accepted, h.connections, h.closed, fun w hw => ?_, h.buffer, hseated⟩
  rcases List.mem_append.mp hw with hw | hw
  · exact h.lobby w hw
  · obtain ⟨k, hk, hread⟩ := h.seated c hc
    have hopen : k ∉ d.gone := fun hg => hclosed ((h.closed k hk c hread).mpr hg)
    rw [List.mem_singleton.mp hw]
    exact h.mem_connections.mpr ⟨k, hk, hopen, hread⟩

/-- A step goes on keeping track exactly when it is of a readable id. -/
theorem Tracked.step_iff (hsid : Distinct sid) (ho : d.Orderly) (h : d.Tracked sid) {a : Happening κ}
    (hstep : step sid d a = some d') : d'.Tracked sid ↔ d.Readable sid a := by
  cases (step_cases hstep).2 with
  | message k type due =>
    cases type with
    | opens =>
      have hk : k ∉ d.opened := by simpa [Due] using due
      show _ ↔ ∃ c, stoull 64 (sid k) = .ok c
      constructor
      · intro h'
        refine h'.accepted k ?_
        rw [opened_returns]
        exact List.mem_append_right _ (List.mem_singleton.mpr rfl)
      · intro ⟨n, hn⟩
        exact h.opens hsid ho hk hn
    | closes =>
      have hk : k ∈ d.opened ∧ k ∉ d.gone := by simpa [Due] using due
      obtain ⟨n, hn⟩ := h.accepted k hk.1
      have hreadable : d.Readable sid (.message k .closes) ↔ fromChars 64 (sid k) 0 = n := by
        show StartsWithDigit (sid k) ∨ stoull 64 (sid k) = .ok 0 ↔ _
        rw [fromChars_eq_iff hn, hn, Except.ok.injEq]
      rw [hreadable]
      by_cases hread : fromChars 64 (sid k) 0 = n
      · exact iff_of_true (h.closes hsid ho hk.1 hk.2 hn hread) hread
      · exact iff_of_false (h.not_closes hsid ho hk.1 hk.2 hn hread) hread
    | message => exact iff_of_true h trivial
    | error => exact iff_of_true h trivial
    | ping => exact iff_of_true h trivial
    | pong => exact iff_of_true h trivial
    | fragment => exact iff_of_true h trivial
  | fill => exact iff_of_true h.fill trivial
  | assemble matchMaker empty => exact iff_of_true (h.assemble empty) trivial
  | giveBack c seated => exact iff_of_true (h.giveBack seated) trivial

/-- **When the server keeps track of its connections**, whatever the order of the
messages and of what the match maker and the games do in between. -/
theorem tracked_iff (hsid : Distinct sid) (as : List (Happening κ)) :
    Transition.Always (step sid) (Tracked sid) initial as ↔
      Transition.Guarded (step sid) (Readable sid) initial as :=
  Transition.always_iff_guarded (I := Orderly) (fun _ _ _ ho hstep => ho.step hstep)
    (fun _ _ _ ho h hstep => h.step_iff hsid ho hstep) .initial .initial as

/-- Two sockets, of which the library names the second with a sign. -/
def signed : Bool → List Char
  | false => ['0']
  | true => ['+', '5']

theorem signed_distinct : Distinct signed := by
  intro j k c hj hk
  cases j <;> cases k <;> try rfl
  all_goals
    simp only [signed, show stoull 64 ['0'] = .ok 0 from rfl, show stoull 64 ['+', '5'] = .ok 5 from rfl,
      Except.ok.injEq] at hj hk
    omega

/-- The second socket's `Close` takes out the first socket's connection. -/
theorem tracked_iff_signed : ¬ Transition.Always (step signed) (Tracked signed) initial
    [.message false .opens, .message true .opens, .message true .closes] := by
  rw [tracked_iff signed_distinct]
  intro h
  have hopened := (h _ rfl).2
  have hopened' := (hopened _ rfl).2
  have hreadable : Readable signed _ (.message true .closes) := (hopened' _ rfl).1
  exact absurd hreadable (by simp [Readable, signed]; decide)

variable (ids : κ ↪ UInt64)

theorem Tracked.step_decimal {a : Happening κ} (ho : d.Orderly) (h : d.Tracked (decimal ids))
    (hstep : step (decimal ids) d a = some d') : d'.Tracked (decimal ids) :=
  (h.step_iff (distinct_decimal ids) ho hstep).mpr (readable_decimal ids d a)

/-- **The server keeps track** of connections whose ids are decimal numerals. -/
theorem tracked_of_decimal (as : List (Happening κ)) :
    Transition.Always (step (decimal ids)) (Tracked (decimal ids)) initial as :=
  (Transition.always_of_invariant (I := fun d => d.Orderly ∧ d.Tracked (decimal ids))
    (fun _ _ _ h hstep => ⟨h.1.step hstep, h.2.step_decimal ids h.1 hstep⟩) ⟨.initial, .initial⟩ as).mono
    fun _ h => h.2

end

end Delivery

end PokerEngine
