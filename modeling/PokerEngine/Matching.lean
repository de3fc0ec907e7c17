/-
Players are matched first come, first served: over every run, whatever the
connections, the match maker and the games do, the groups for which games were
asked for, then the buffer, then the lobby are the players in the order they were
pushed, less those erased by closures.

What happens to the queue is read off the run (`queueTrace`). `QueueStep` lists
what a step of the program can do to the lobby and the buffer, and what it shows
of that; each of these is an operation of a queue with erasure (`Fifo`).
-/
import Mathlib.Data.List.ReduceOption
import PokerEngine.Embedding
import PokerEngine.Fifo

namespace PokerEngine

/-- What can be seen of the queue: a connection is pushed into the lobby, a scan
removes an entry, or `CreateMatchConductor` is entered. -/
inductive QueueEvent
  | push (value : ConnId)
  | erase (entry : Waiting)
  | create (players : List (Option ConnId))
  deriving DecidableEq, Repr

namespace QueueEvent

def value : QueueEvent → Option ConnId
  | .push value => some value
  | _ => none

def entry : QueueEvent → Option Waiting
  | .erase entry => some entry
  | _ => none

def players : QueueEvent → Option (List (Option ConnId))
  | .create players => some players
  | _ => none

/-- The connections pushed, in order. -/
def pushes (trace : List QueueEvent) : List ConnId := trace.filterMap value

/-- The entries that scans removed. -/
def erasures (trace : List QueueEvent) : List Waiting := trace.filterMap entry

/-- The arguments of `CreateMatchConductor`, in order. -/
def groups (trace : List QueueEvent) : List (List (Option ConnId)) := trace.filterMap players

theorem pushes_append (trace shown : List QueueEvent) : pushes (trace ++ shown) = pushes trace ++ pushes shown :=
  List.filterMap_append

theorem erasures_append (trace shown : List QueueEvent) :
    erasures (trace ++ shown) = erasures trace ++ erasures shown :=
  List.filterMap_append

theorem groups_append (trace shown : List QueueEvent) : groups (trace ++ shown) = groups trace ++ groups shown :=
  List.filterMap_append

theorem erasures_erase (entries : List Waiting) : erasures (entries.map .erase) = entries := by
  simp [erasures, List.filterMap_map, Function.comp_def, entry]

theorem pushes_erase (entries : List Waiting) : pushes (entries.map .erase) = [] := by
  simp [pushes, List.filterMap_map, Function.comp_def, value]

theorem groups_erase (entries : List Waiting) : groups (entries.map .erase) = [] := by
  simp [groups, List.filterMap_map, Function.comp_def, players]

end QueueEvent

open QueueEvent (pushes erasures groups)

/-- What a step of the program can do to the lobby and the match maker, and what
it shows of that. -/
inductive QueueStep (l : Lobby) (m : MatchMaker) : List QueueEvent → Lobby → MatchMaker → Prop
  | keep (stop : Bool) : QueueStep l m [] l { m with stop }
  | push (value : ConnId) : QueueStep l m [.push value] (l.push value) m
  | fill : QueueStep l m [] (MatchMaker.fill l m).1 (MatchMaker.fill l m).2
  | assemble (players : List (Option Waiting)) (m' : MatchMaker)
      (full : m.intermediateBuffer.length = gNumberOfPlayersInGame)
      (taken : m.assembleGame = .ok (players, m')) :
    QueueStep l m [.create (players.map (Option.map Waiting.id))] l m'
  | scanLobby (closed : ConnId → Bool) (id : ConnId) (n : Nat) (l' : Lobby)
      (scanned : l.onConnectionClosed closed id = .ok (n, l')) :
    QueueStep l m ((l.data.filter (· ∉ l'.data)).map .erase) l' m
  | scanBuffer (closed : ConnId → Bool) (id : ConnId) (n : Nat) (m' : MatchMaker)
      (scanned : m.onConnectionClosed closed id = .ok (n, m')) :
    QueueStep l m ((m.intermediateBuffer.filter (· ∉ m'.intermediateBuffer)).map .erase) l m'

theorem QueueStep.showing {l l' : Lobby} {m m' : MatchMaker} {shown shown' : List QueueEvent}
    (h : QueueStep l m shown l' m') (heq : shown' = shown) : QueueStep l m shown' l' m' :=
  heq ▸ h

/-- The players of the groups taken so far, in order. -/
def MatchMaker.taken (m : MatchMaker) : List Waiting := m.assembled.flatten.reduceOption

/-- **First come, first served**: the queue as one line, the groups of the right
size without null entries, and the buffer within its bound. -/
structure FirstComeFirstServed (l : Lobby) (m : MatchMaker) : Prop where
  fifo : Fifo l.pushed (l.erased ++ m.erased) m.taken m.intermediateBuffer l.data
  tickets : l.pushed.map Waiting.ticket = List.range l.pushed.length
  groups : ∀ group ∈ m.assembled, group.length = gNumberOfPlayersInGame ∧ ∀ p ∈ group, p.isSome = true
  buffer : m.intermediateBuffer.length ≤ gNumberOfPlayersInGame

namespace FirstComeFirstServed

variable {l : Lobby} {m : MatchMaker}

theorem construct : FirstComeFirstServed .construct .construct :=
  ⟨Fifo.nil, rfl, by simp [MatchMaker.construct], by simp [MatchMaker.construct]⟩

theorem push (h : FirstComeFirstServed l m) (value : ConnId) : FirstComeFirstServed (l.push value) m := by
  refine ⟨h.fifo.push (fresh_of_tickets h.tickets value), ?_, h.groups, h.buffer⟩
  simp [Lobby.push, h.tickets, List.range_succ]

theorem fill (h : FirstComeFirstServed l m) :
    FirstComeFirstServed (MatchMaker.fill l m).1 (MatchMaker.fill l m).2 := by
  have hfifo := h.fifo
  unfold MatchMaker.fill
  split
  next => exact h
  next front rest hdata =>
    rw [hdata] at hfifo
    split
    · exact h
    next hsize =>
      refine ⟨hfifo.advance, h.tickets, h.groups, ?_⟩
      have := h.buffer
      simp only [List.length_append, List.length_singleton]
      omega

theorem assemble {players : List (Option Waiting)} {m' : MatchMaker} (h : FirstComeFirstServed l m)
    (hfull : m.intermediateBuffer.length = gNumberOfPlayersInGame)
    (htaken : m.assembleGame = .ok (players, m')) : FirstComeFirstServed l m' := by
  rw [MatchMaker.assembleGame_of_full hfull] at htaken
  simp only [Except.ok.injEq, Prod.mk.injEq] at htaken
  obtain ⟨-, rfl⟩ := htaken
  refine ⟨?_, h.tickets, ?_, Nat.zero_le _⟩
  · have htaken : (m.assembled ++ [m.intermediateBuffer.map some]).flatten.reduceOption =
        m.taken ++ m.intermediateBuffer := by
      simp [MatchMaker.taken, List.reduceOption]
    rw [MatchMaker.taken, htaken]
    exact h.fifo.take
  · intro group hgroup
    rcases List.mem_append.mp hgroup with hgroup | hgroup
    · exact h.groups group hgroup
    · rw [List.mem_singleton.mp hgroup, List.length_map]
      exact ⟨hfull, by simp⟩

theorem scanLobby {closed : ConnId → Bool} {id : ConnId} {n : Nat} {l' : Lobby} (h : FirstComeFirstServed l m)
    (hscan : l.onConnectionClosed closed id = .ok (n, l')) : FirstComeFirstServed l' m := by
  rw [Lobby.onConnectionClosed_ok hscan]
  refine ⟨(h.fifo.eraseBack fun w => closed w.id).erased_congr fun w => ?_, h.tickets, h.groups, h.buffer⟩
  simp only [List.mem_append]
  tauto

theorem scanBuffer {closed : ConnId → Bool} {id : ConnId} {n : Nat} {m' : MatchMaker}
    (h : FirstComeFirstServed l m) (hscan : m.onConnectionClosed closed id = .ok (n, m')) :
    FirstComeFirstServed l m' := by
  rw [MatchMaker.onConnectionClosed_ok hscan]
  refine ⟨(h.fifo.eraseFront fun w => closed w.id).erased_congr fun w => ?_, h.tickets, h.groups,
    Nat.le_trans (List.length_filter_le _ _) h.buffer⟩
  simp only [List.mem_append]
  tauto

theorem queueStep {l' : Lobby} {m' : MatchMaker} {shown : List QueueEvent} (h : FirstComeFirstServed l m)
    (hstep : QueueStep l m shown l' m') : FirstComeFirstServed l' m' := by
  cases hstep with
  | keep stop => exact ⟨h.fifo, h.tickets, h.groups, h.buffer⟩
  | push value => exact h.push value
  | fill => exact h.fill
  | assemble players _ full taken => exact h.assemble full taken
  | scanLobby closed id n _ scanned => exact h.scanLobby scanned
  | scanBuffer closed id n _ scanned => exact h.scanBuffer scanned

end FirstComeFirstServed

/-! ## The queue and its trace -/

/-- The queue is served first come, first served, and has kept what the trace
shows. -/
structure Traced (l : Lobby) (m : MatchMaker) (trace : List QueueEvent) : Prop where
  served : FirstComeFirstServed l m
  pushed : l.pushed.map Waiting.id = pushes trace
  erased : ∀ w, w ∈ l.erased ++ m.erased ↔ w ∈ erasures trace
  created : m.assembled.map (List.map (Option.map Waiting.id)) = groups trace

namespace Traced

variable {l l' : Lobby} {m m' : MatchMaker} {trace shown : List QueueEvent}

theorem construct : Traced .construct .construct [] :=
  ⟨.construct, rfl, by simp [Lobby.construct, MatchMaker.construct, erasures], rfl⟩

/-- A step that pushes nothing, erases nothing and takes no group shows nothing. -/
theorem quiet (h : Traced l m trace) (served : FirstComeFirstServed l' m') (hpushed : l'.pushed = l.pushed)
    (herased : l'.erased = l.erased) (herased' : m'.erased = m.erased) (hassembled : m'.assembled = m.assembled) :
    Traced l' m' (trace ++ []) := by
  rw [List.append_nil]
  refine ⟨served, hpushed ▸ h.pushed, ?_, hassembled ▸ h.created⟩
  rw [herased, herased']
  exact h.erased

/-- A scan shows the entries it has removed. -/
theorem scan {gone : List Waiting} (h : Traced l m trace) (served : FirstComeFirstServed l' m')
    (hpushed : l'.pushed = l.pushed)
    (herased : ∀ w, w ∈ l'.erased ++ m'.erased ↔ w ∈ l.erased ++ m.erased ∨ w ∈ gone)
    (hassembled : m'.assembled = m.assembled) : Traced l' m' (trace ++ gone.map .erase) := by
  refine ⟨served, ?_, fun w => ?_, ?_⟩
  · rw [hpushed, h.pushed, QueueEvent.pushes_append, QueueEvent.pushes_erase, List.append_nil]
  · rw [herased, h.erased, QueueEvent.erasures_append, QueueEvent.erasures_erase, List.mem_append]
  · rw [hassembled, h.created, QueueEvent.groups_append, QueueEvent.groups_erase, List.append_nil]

theorem step (h : Traced l m trace) (hstep : QueueStep l m shown l' m') : Traced l' m' (trace ++ shown) := by
  have hserved := h.served.queueStep hstep
  cases hstep with
  | keep stop => exact h.quiet hserved rfl rfl rfl rfl
  | push value =>
    have herasures : erasures (trace ++ [.push value]) = erasures trace := by simp [erasures, QueueEvent.entry]
    have hgroups : groups (trace ++ [.push value]) = groups trace := by simp [groups, QueueEvent.players]
    refine ⟨hserved, ?_, herasures ▸ h.erased, hgroups ▸ h.created⟩
    rw [QueueEvent.pushes_append, ← h.pushed]
    simp [Lobby.push, pushes, QueueEvent.value]
  | fill =>
    obtain ⟨hpushed, herased, herased', hassembled⟩ := MatchMaker.fill_history l m
    exact h.quiet hserved hpushed herased herased' hassembled
  | assemble players _ full taken =>
    rw [MatchMaker.assembleGame_of_full full] at taken
    obtain ⟨rfl, rfl⟩ := Prod.mk.inj (Except.ok.inj taken)
    have hpushes (players : List (Option ConnId)) : pushes (trace ++ [.create players]) = pushes trace := by
      simp [pushes, QueueEvent.value]
    have herasures (players : List (Option ConnId)) : erasures (trace ++ [.create players]) = erasures trace := by
      simp [erasures, QueueEvent.entry]
    refine ⟨hserved, (hpushes _).symm ▸ h.pushed, (herasures _).symm ▸ h.erased, ?_⟩
    rw [QueueEvent.groups_append, ← h.created, List.map_append]
    rfl
  | scanLobby closed id n _ scanned =>
    rw [Lobby.onConnectionClosed_ok scanned]
    rw [Lobby.onConnectionClosed_ok scanned] at hserved
    refine h.scan hserved rfl (fun w => ?_) rfl
    rw [Fifo.filter_not_mem_filter]
    simp only [Bool.not_not, List.mem_append]
    tauto
  | scanBuffer closed id n _ scanned =>
    rw [MatchMaker.onConnectionClosed_ok scanned]
    rw [MatchMaker.onConnectionClosed_ok scanned] at hserved
    refine h.scan hserved rfl (fun w => ?_) rfl
    rw [Fifo.filter_not_mem_filter]
    simp only [Bool.not_not, List.mem_append]
    tauto

/-- The players whom games were asked for. -/
theorem flatten_groups (h : Traced l m trace) :
    (groups trace).flatten = m.taken.map (fun w => some w.id) := by
  rw [← h.created, MatchMaker.taken]
  have hsome : ∀ p ∈ m.assembled.flatten, p.isSome = true := fun p hp => by
    obtain ⟨group, hgroup, hp⟩ := List.mem_flatten.mp hp
    exact (h.served.groups group hgroup).2 p hp
  rw [← List.map_flatten]
  generalize m.assembled.flatten = players at hsome
  induction players with
  | nil => rfl
  | cons p players ih =>
    obtain ⟨w, rfl⟩ := Option.isSome_iff_exists.mp (hsome p List.mem_cons_self)
    rw [List.reduceOption_cons_of_some, List.map_cons, List.map_cons]
    exact congrArg (some w.id :: ·) (ih fun q hq => hsome q (List.mem_cons_of_mem _ hq))

end Traced

/-! ## The steps of the program -/

namespace Server

/-- The entries that an observer of closures keeps. -/
def stash (s : Server) : ClosureObserver → List Waiting
  | .lobby => s.lobby.data
  | .matchMaker => s.matchMaker.intermediateBuffer

/-- The push of `OnNewConnectionEstablished`, and what a scan takes out. -/
def callbackEvents (s : Server) (c : ConnId) (s' : Server) : List QueueEvent :=
  match s.callbacks c with
  | .push => [.push c]
  | .scan observer _ => ((s.stash observer).filter (· ∉ s'.stash observer)).map .erase
  | _ => []

/-- The push of `Finish`. -/
def gameEvents (s : Server) (g : GameId) : List QueueEvent :=
  match s.manager.gameStep s.closed s.alive g with
  | some (.ok (_, .push value)) => [.push value]
  | _ => []

/-- The match maker has entered `CreateMatchConductor`. -/
def makerEvents (s s' : Server) : List QueueEvent :=
  match s.manager.create, s'.manager.create with
  | .idle, .testFinish players => [.create players]
  | _, _ => []

/-- What a step shows of the queue. -/
def queueEvents (s : Server) (a : Action) (s' : Server) : List QueueEvent :=
  match a with
  | .run (.callback c) => s.callbackEvents c s'
  | .run (.game g) => s.gameEvents g
  | .run .maker => s.makerEvents s'
  | _ => []

/-- What a run shows of the queue. -/
def queueTrace (as : List Action) : List QueueEvent := Transition.observed step queueEvents initial as

variable {s s' : Server}

theorem callbackEvents_quiet {c : ConnId} (h : (s.callbacks c).quiet = true) (s' : Server) :
    s.callbackEvents c s' = [] := by
  unfold callbackEvents
  cases hpc : s.callbacks c <;> simp_all [CallbackPc.quiet]

theorem callbackEvents_scan {c : ConnId} {observer : ClosureObserver} {rest : List ClosureObserver}
    (place : s.callbacks c = .scan observer rest) (s' : Server) :
    s.callbackEvents c s' = ((s.stash observer).filter (· ∉ s'.stash observer)).map .erase := by
  simp only [callbackEvents, place]

theorem CallbackStep.queueStep {c : ConnId} (hstep : CallbackStep s c s') :
    QueueStep s.lobby s.matchMaker (s.callbackEvents c s') s'.lobby s'.matchMaker := by
  cases hstep with
  | move pc pc' op d place walk free data =>
    cases data with
    | quiet pc hpc =>
      rw [callbackEvents_quiet (place ▸ hpc)]
      exact .keep _
    | register | setClosed | erase =>
      simp only [callbackEvents, place]
      exact .keep _
    | push =>
      simp only [callbackEvents, place]
      exact .push c
    | scanLobby rest n lobby scanned =>
      rw [callbackEvents_scan place]
      exact .scanLobby _ _ _ _ scanned
    | scanBuffer rest n matchMaker scanned =>
      rw [callbackEvents_scan place]
      exact .scanBuffer _ _ _ _ scanned
  | notFound place absent =>
    rw [callbackEvents_quiet (by rw [place]; rfl)]
    exact .keep _
  | scanFails observer rest f place fails =>
    -- nothing was taken out before the scan aborted
    have hsame : (s.stash observer).filter (· ∉ (s.halt f).stash observer) = [] :=
      List.filter_eq_nil_iff.mpr fun w hw => by
        have hw' : w ∈ (s.halt f).stash observer := by cases observer <;> exact hw
        simpa using hw'
    rw [callbackEvents_scan place, hsame]
    exact .keep _

theorem GameStep.queueStep {g : GameId} (hstep : GameStep s g s') :
    QueueStep s.lobby s.matchMaker (s.gameEvents g) s'.lobby s'.matchMaker := by
  cases hstep with
  | move c e op lobby stepped live free data =>
    cases data with
    | silent | lockLobby =>
      simp only [gameEvents, MatchConductorManager.gameStep, stepped, live, Option.bind_eq_bind, Option.bind_some]
      exact .keep _
    | push value =>
      simp only [gameEvents, MatchConductorManager.gameStep, stepped, live, Option.bind_eq_bind, Option.bind_some]
      exact .push value
  | fails f failed =>
    simp only [gameEvents, failed]
    exact .keep _

theorem makerEvents_of_busy (hbusy : s.manager.create ≠ .idle) (s' : Server) : s.makerEvents s' = [] := by
  unfold makerEvents
  split
  next hidle _ => exact absurd hidle hbusy
  next => rfl

theorem makerEvents_of_same (hsame : s'.manager.create = s.manager.create) : s.makerEvents s' = [] := by
  unfold makerEvents
  rw [hsame]
  split
  next hidle hcalled => exact absurd (hidle.symm.trans hcalled) (by simp)
  next => rfl

theorem MakerStep.queueStep (hl : s.Linked) (hstep : MakerStep s s') :
    QueueStep s.lobby s.matchMaker (s.makerEvents s') s'.lobby s'.matchMaker := by
  cases hstep with
  | move pc pc' op d place walk free data =>
    cases data with
    | quiet => exact .showing (.keep _) (makerEvents_of_same rfl)
    | fill => exact .showing .fill (makerEvents_of_same rfl)
    | assemble players matchMaker full taken =>
      have hidle : s.manager.create = .idle := hl.idle (by simp [place])
      refine .showing (.assemble players _ full taken) ?_
      simp only [makerEvents, hidle]
  | create manager place created =>
    have hbusy : s.manager.create ≠ .idle := fun hidle => by simp [MatchConductorManager.createStep, hidle] at created
    exact .showing (.keep _) (makerEvents_of_busy hbusy _)
  | created => exact .showing (.keep _) (makerEvents_of_same rfl)
  | assembleFails => exact .showing (.keep _) (makerEvents_of_same rfl)
  | createFails => exact .showing (.keep _) (makerEvents_of_same rfl)

theorem MainStep.queueStep (hstep : MainStep s s') :
    QueueStep s.lobby s.matchMaker [] s'.lobby s'.matchMaker := by
  cases hstep with
  | move pc pc' op d place walk free data => cases data <;> exact .keep _
  | finish => exact .keep _
  | fails => exact .keep _

/-- A step shows what it does to the queue. -/
theorem step_queueStep {a : Action} (hl : s.Linked) (h : s.step a = some s') :
    QueueStep s.lobby s.matchMaker (queueEvents s a s') s'.lobby s'.matchMaker := by
  cases (step_cases h).2 with
  | connect => exact .keep _
  | disconnect => exact .keep _
  | socketGone => exact .keep _
  | quit => exact .keep _
  | main _ hstep => exact hstep.queueStep
  | maker _ hstep => exact hstep.queueStep hl
  | callback c _ hstep => exact hstep.queueStep
  | game g _ hstep => exact hstep.queueStep

theorem traced {as : List Action} {s : Server} (hrun : Transition.run step initial as = some s) :
    Traced s.lobby s.matchMaker (queueTrace as) := by
  have htraced : s.Linked ∧ Traced s.lobby s.matchMaker (queueTrace as) :=
    Transition.traced_of_run (J := fun s trace => s.Linked ∧ Traced s.lobby s.matchMaker trace)
      (fun s a s' trace h hs => ⟨h.1.step hs, h.2.step (step_queueStep h.1 hs)⟩) ⟨.initial, .construct⟩ hrun
  exact htraced.2

/-- **Players are matched first come, first served**, in every run of the
program: the players for whom games were asked so far, then the buffer, then the
lobby are the pushed players in order with exactly the occurrences deleted that
scans removed; every group has the right number of players and no null entry; and
the buffer never holds more than one group. -/
theorem matched_first_come_first_served {as : List Action} {s : Server}
    (hrun : Transition.run step initial as = some s) :
    (∃ taken : List Waiting, (groups (queueTrace as)).flatten = taken.map (fun w => some w.id) ∧
      taken ++ s.matchMaker.intermediateBuffer ++ s.lobby.data =
        (numbered (pushes (queueTrace as))).filter (fun w => w ∉ erasures (queueTrace as))) ∧
    (∀ group ∈ groups (queueTrace as), group.length = gNumberOfPlayersInGame ∧ ∀ p ∈ group, p.isSome = true) ∧
    s.matchMaker.intermediateBuffer.length ≤ gNumberOfPlayersInGame := by
  have h := traced hrun
  refine ⟨⟨s.matchMaker.taken, h.flatten_groups, ?_⟩, fun group hgroup => ?_, h.served.buffer⟩
  · rw [h.served.fifo.order, ← h.pushed, numbered_map_id h.served.tickets]
    exact List.filter_congr fun w _ => by simp only [h.erased]
  · rw [← h.created] at hgroup
    obtain ⟨group, hmem, rfl⟩ := List.mem_map.mp hgroup
    obtain ⟨hlength, hsome⟩ := h.served.groups group hmem
    refine ⟨by rw [List.length_map, hlength], fun p hp => ?_⟩
    obtain ⟨w, hw, rfl⟩ := List.mem_map.mp hp
    rw [Option.isSome_map]
    exact hsome w hw

/-- Four players connect and the second leaves; the others are matched. -/
def leaverRun : List Action :=
  List.replicate 5 (.run .main) ++
  .connect 0 :: List.replicate 5 (.run (.callback 0)) ++
  .connect 1 :: List.replicate 5 (.run (.callback 1)) ++
  .connect 2 :: List.replicate 5 (.run (.callback 2)) ++
  .connect 3 :: List.replicate 5 (.run (.callback 3)) ++
  .disconnect 1 :: List.replicate 12 (.run (.callback 1)) ++ List.replicate 24 (.run .maker)

theorem matched_first_come_first_served_leaver :
    groups (queueTrace leaverRun) = [[some 0, some 2, some 3]] ∧ erasures (queueTrace leaverRun) = [⟨1, 1⟩] ∧
    ∃ (s : Server) (taken : List Waiting), Transition.run step initial leaverRun = some s ∧
      (groups (queueTrace leaverRun)).flatten = taken.map (fun w => some w.id) ∧
      taken ++ s.matchMaker.intermediateBuffer ++ s.lobby.data =
        (numbered (pushes (queueTrace leaverRun))).filter (fun w => w ∉ erasures (queueTrace leaverRun)) := by
  have hgoes : (Transition.run step initial leaverRun).isSome = true := by decide +kernel
  obtain ⟨s, hrun⟩ := Option.isSome_iff_exists.mp hgoes
  obtain ⟨⟨taken, htaken, horder⟩, -⟩ := matched_first_come_first_served hrun
  exact ⟨by decide +kernel, by decide +kernel, s, taken, hrun, htaken, horder⟩

end Server

end PokerEngine
