/-
Where the players are: before shutdown no connection is at two of the opening
callback, the lobby, the buffer, the hand-over to `CreateMatchConductor` and the
games, nor twice at one, and every open registered connection is at one of them.

The places hand connections over by moves under three mutexes. Only scans and
the end of `Finish` let a connection go, and only closed ones: a game's loop has
dealt with every open player before it clears the vector (`InOrder`).
-/
import Mathlib.Data.List.ReduceOption
import PokerEngine.Custody
import PokerEngine.Embedding
import PokerEngine.Transition

namespace PokerEngine

open Custody (Exclusive Held Handover)

/-! ## The players of one game -/

/-- How many entries of a vector of `n` players the loop of `Finish` has dealt
with. -/
def GamePc.visited (n : Nat) : GamePc → Nat
  | .finish i _ => i
  | .notify i _ => i
  | .testStop i _ => i
  | .pushLock i _ _ => i + 1
  | .push i _ _ => i + 1
  | .clear _ => n
  | _ => 0

namespace MatchConductor

/-- The non-null players, the one on the way into the lobby included. -/
def seated (c : MatchConductor) : List ConnId := c.players.reduceOption ++ c.pc.value.toList

/-- A game that nobody forces to finish: `Finish` leaves only closed players
behind, and a game that has stopped holds none. -/
structure InOrder (closed : ConnId → Bool) (c : MatchConductor) : Prop where
  visited : ∀ j < c.pc.visited c.players.length, ∀ p, c.players[j]? = some (some p) → closed p = true
  cleared : ∀ left, c.pc = .setStop left → c.players = []
  stopped : c.stop = true → c.players = [] ∧ (c.pc = .head ∨ c.pc = .returned)

theorem InOrder.mono {closed closed' : ConnId → Bool} {c : MatchConductor} (h : c.InOrder closed)
    (hclosed : ∀ p, closed p = true → closed' p = true) : c.InOrder closed' :=
  ⟨fun j hj p hp => hclosed p (h.visited j hj p hp), h.cleared, h.stopped⟩

/-- What a step of a game does to its players. -/
inductive Seating (closed : ConnId → Bool) (c c' : MatchConductor) : Effect → Prop
  | pushed (value : ConnId) (seated : c.seated.Perm (value :: c'.seated)) : Seating closed c c' (.push value)
  | stays (e : Effect) (sub : c'.seated.Subperm c.seated)
      (kept : ∀ p ∈ c.seated, closed p = false → p ∈ c'.seated) (hpush : ∀ value, e ≠ .push value) :
    Seating closed c c' e

theorem Seating.same {closed : ConnId → Bool} {c c' : MatchConductor} {e : Effect} (h : c'.seated.Perm c.seated)
    (hpush : ∀ value, e ≠ .push value) : Seating closed c c' e :=
  .stays e h.subperm (fun _ hp _ => h.mem_iff.mpr hp) hpush

/-- A player taken out of the vector is the one that goes into the lobby. -/
theorem reduceOption_set_none {players : List (Option ConnId)} {i : Nat} {p : ConnId}
    (h : players[i]? = some (some p)) :
    ((players.set i none).reduceOption ++ [p]).Perm players.reduceOption := by
  obtain ⟨A, B, rfl, rfl⟩ := split_of_getElem? h
  rw [set_mid, List.reduceOption_append, List.reduceOption_append, List.reduceOption_cons_of_none,
    List.reduceOption_cons_of_some, List.append_assoc]
  exact (List.perm_append_singleton p B.reduceOption).append_left A.reduceOption

/-- The loop goes on past a player that is closed, or has left its place. -/
theorem InOrder.passed {closed : ConnId → Bool} {players : List (Option ConnId)} {i : Nat}
    (h : ∀ j < i, ∀ p, players[j]? = some (some p) → closed p = true)
    (hi : ∀ p, players[i]? = some (some p) → closed p = true) :
    ∀ j < i + 1, ∀ p, players[j]? = some (some p) → closed p = true := by
  intro j hj p hp
  rcases Nat.lt_succ_iff_lt_or_eq.mp hj with hlt | rfl
  · exact h j hlt p hp
  · exact hi p hp

/-- A game that is not told to stop goes on to a place with nobody on the way. -/
theorem InOrder.of_goto {closed : ConnId → Bool} {c : MatchConductor} {pc : GamePc} (hopen : c.stop = false)
    (hvisited : ∀ j < pc.visited c.players.length, ∀ p, c.players[j]? = some (some p) → closed p = true)
    (hpc : ∀ left, pc ≠ .setStop left) : (c.goto pc).InOrder closed :=
  ⟨hvisited, fun left h => absurd h (hpc left), fun h => absurd (hopen.symm.trans h) (by simp)⟩

theorem seated_goto {c : MatchConductor} {pc : GamePc} (hpc : pc.value = c.pc.value) :
    (c.goto pc).seated = c.seated := by
  simp [seated, goto, hpc]

/-- **A step of a game keeps its players in order.** -/
theorem InOrder.step {closed alive : ConnId → Bool} {c c' : MatchConductor} {e : Effect} (h : c.InOrder closed)
    (hstep : c.step closed alive = some (c', e)) : c'.InOrder closed ∧ Seating closed c c' e := by
  have hvisited := h.visited
  have hopen (hh : c.pc ≠ .head) (hr : c.pc ≠ .returned) : c.stop = false := by
    by_contra hs
    exact (h.stopped (by simpa using hs)).2.elim hh hr
  -- a step to a place where nobody is on the way, from one where nobody is
  have hquiet {pc pc' : GamePc} (place : c.pc = pc) (hv : pc.value = none) (hv' : pc'.value = none)
      (ho : (c.goto pc').InOrder closed) :
      (c.goto pc').InOrder closed ∧ Seating closed c (c.goto pc') .silent :=
    ⟨ho, .same (by rw [seated_goto (hv'.trans (place ▸ hv).symm)]) (by simp)⟩
  cases step_cases hstep with
  | fails => exact ⟨h, .same (.refl _) (by simp)⟩
  | stopped place stop =>
    refine hquiet place rfl rfl ⟨fun j hj => ?_, fun left hl => ?_, fun _ => ⟨(h.stopped stop).1, .inr rfl⟩⟩
    · simp [goto, GamePc.visited] at hj
    · simp [goto] at hl
  | begins place stop => exact hquiet place rfl rfl (.of_goto stop (by simp [GamePc.visited]) (by simp))
  | welcomed i place | misses i _ place | wakes place =>
    have hs := hopen (by simp [place]) (by simp [place])
    exact hquiet place rfl rfl (.of_goto hs (by simp [GamePc.visited]) (by simp))
  | greets i p place =>
    have hs := hopen (by simp [place]) (by simp [place])
    refine ⟨.of_goto (c := c.send p _) hs (by simp [GamePc.visited]) (by simp), .same ?_ (by simp)⟩
    simp [seated, goto, send, place, GamePc.value]
  | leaves place =>
    have hs := hopen (by simp [place]) (by simp [place])
    refine ⟨.of_goto (c := { c with finishReason := .playerLeft }) hs (by simp [GamePc.visited]) (by simp),
      .same ?_ (by simp)⟩
    simp [seated, place, GamePc.value]
  | finished i left place past =>
    have hs := hopen (by simp [place]) (by simp [place])
    simp only [place, GamePc.visited] at hvisited
    refine hquiet place rfl rfl (.of_goto hs (fun j hj => ?_) (by simp))
    exact hvisited j (Nat.lt_of_lt_of_le hj (List.getElem?_eq_none_iff.mp past))
  | skips i left p place player shut =>
    have hs := hopen (by simp [place]) (by simp [place])
    simp only [place, GamePc.visited] at hvisited
    refine hquiet place rfl rfl (.of_goto hs (passed hvisited fun q hq => ?_) (by simp))
    simp only [player, Option.some.injEq] at hq
    exact hq ▸ shut
  | meets i left p place | cannotNotify i left p place =>
    have hs := hopen (by simp [place]) (by simp [place])
    simp only [place, GamePc.visited] at hvisited
    exact hquiet place rfl rfl (.of_goto hs hvisited (by simp))
  | notifies i left p place =>
    have hs := hopen (by simp [place]) (by simp [place])
    simp only [place, GamePc.visited] at hvisited
    refine ⟨.of_goto (c := c.send p _) hs hvisited (by simp), .same ?_ (by simp)⟩
    simp [seated, goto, send, place, GamePc.value]
  | keeps i left place stop =>
    exact absurd (stop.symm.trans (hopen (by simp [place]) (by simp [place]))) (by simp)
  | moves i left p place player =>
    simp only [place, GamePc.visited] at hvisited
    have hs := hopen (by simp [place]) (by simp [place])
    refine ⟨⟨?_, by simp, by simp [hs]⟩, .same ?_ (by simp)⟩
    · refine passed (fun j hj q hq => hvisited j hj q ?_) (fun q hq => ?_)
      · rwa [List.getElem?_set_ne (Nat.ne_of_gt hj)] at hq
      · simp [List.getElem?_set] at hq
    · simpa [seated, place, GamePc.value] using reduceOption_set_none player
  | locks i left p place =>
    have hs := hopen (by simp [place]) (by simp [place])
    simp only [place, GamePc.visited] at hvisited
    exact ⟨.of_goto hs hvisited (by simp), .same (by rw [seated_goto (by rw [place]; rfl)]) (by simp)⟩
  | pushes i left p place =>
    have hs := hopen (by simp [place]) (by simp [place])
    simp only [place, GamePc.visited] at hvisited
    refine ⟨.of_goto hs hvisited (by simp), .pushed p ?_⟩
    simp [seated, goto, place, GamePc.value]
  | clears left place =>
    have hs := hopen (by simp [place]) (by simp [place])
    simp only [place, GamePc.visited] at hvisited
    refine ⟨⟨by simp, by simp, by simp [hs]⟩, .stays _ (by simp [seated, GamePc.value]) (fun p hp hclosed => ?_)
      (by simp)⟩
    -- every player still in the vector is closed
    simp only [seated, place, GamePc.value, Option.toList_none, List.append_nil,
      List.reduceOption_mem_iff] at hp
    obtain ⟨j, hj, hjp⟩ := List.getElem_of_mem hp
    have := hvisited j hj p (by rw [List.getElem?_eq_getElem hj, hjp])
    simp [hclosed] at this
  | setsStop left place =>
    have hplayers := h.cleared left place
    refine ⟨⟨by simp [hplayers], ?_, fun _ => ⟨hplayers, ?_⟩⟩, .same ?_ (by simp)⟩
    · intro left' hl
      cases left <;> simp at hl
    · cases left
      · exact .inl rfl
      · exact .inr rfl
    · cases left <;> simp [seated, place, GamePc.value]

end MatchConductor

/-! ## The places of the program -/

/-- Where a connection can be held. -/
inductive Place
  | opening (c : ConnId)
  | lobby
  | buffer
  | handOver
  | game (g : GameId)
  deriving DecidableEq

/-- In `OnNewConnectionEstablished` between its two pushes. -/
def CallbackPc.between : CallbackPc → Bool
  | .lockPush => true
  | .push => true
  | _ => false

/-- Past the first push of `OnNewConnectionEstablished`, or its end. -/
def CallbackPc.registered : CallbackPc → Bool
  | .idle => false
  | .openTestStop => false
  | .lockRegister => false
  | .register => false
  | _ => true

/-- The operator has not quit. -/
def MainPc.beforeEnd : MainPc → Bool
  | .lockStart => true
  | .start _ => true
  | .waiting => true
  | _ => false

theorem CallbackWalk.between {stop : Bool} {pc pc' : CallbackPc} {op : LockOp}
    (h : Server.CallbackWalk stop pc op pc') (hregister : pc ≠ .register) (hpush : pc ≠ .push) :
    pc'.between = pc.between := by
  cases h <;> first | rfl | (split <;> rfl) | (exact absurd rfl hregister) | (exact absurd rfl hpush)

theorem CallbackWalk.registered {stop : Bool} {pc pc' : CallbackPc} {op : LockOp}
    (h : Server.CallbackWalk stop pc op pc') (hpc : pc.registered = true) : pc'.registered = true := by
  cases h <;> first | rfl | (split <;> rfl) | (simp [CallbackPc.registered] at hpc)

namespace Server

/-- The connections held at a place. -/
def playersAt (s : Server) : Place → List ConnId
  | .opening c => if (s.callbacks c).between then [c] else []
  | .lobby => s.lobby.data.map Waiting.id
  | .buffer => s.matchMaker.intermediateBuffer.map Waiting.id
  | .handOver => s.manager.argument.reduceOption
  | .game g => (s.manager.conductors g).seated

/-- What holds before shutdown. -/
structure Ownership (s : Server) : Prop where
  exclusive : Exclusive s.playersAt
  registered : ∀ c, Held s.playersAt c → (s.callbacks c).registered = true
  kept : ∀ c ∈ s.connections, s.closed c = false → Held s.playersAt c
  games : ∀ g, (s.manager.conductors g).InOrder s.closed
  accepting : s.manager.finishRequested = false

theorem Ownership.initial : initial.Ownership where
  exclusive := Exclusive.of_empty fun p => by cases p <;> rfl
  registered c := by
    intro ⟨p, hp⟩
    cases p <;> exact absurd hp (List.not_mem_nil)
  kept c hc := absurd hc (List.not_mem_nil)
  games g := ⟨fun _ hj => absurd hj (Nat.not_lt_zero _), nofun, nofun⟩
  accepting := rfl

/-- **Handing over.** Connections go from place to place, and only closed ones
are let go. -/
theorem Ownership.handover {s s' : Server} (h : s.Ownership)
    (hh : Handover (fun c => s'.closed c = true) s.playersAt s'.playersAt)
    (hregistered : ∀ c, (s.callbacks c).registered = true → (s'.callbacks c).registered = true)
    (hconnections : ∀ c ∈ s'.connections, c ∈ s.connections)
    (hclosed : ∀ c, s.closed c = true → s'.closed c = true)
    (hgames : ∀ g, (s'.manager.conductors g).InOrder s'.closed)
    (haccepting : s'.manager.finishRequested = s.manager.finishRequested) : s'.Ownership where
  exclusive := hh.exclusive h.exclusive
  registered c hc := hregistered c (h.registered c (hh.origin hc))
  kept c hc hopen := by
    have hopen' : s.closed c = false := by
      by_contra hne
      have := hclosed c (by simpa using hne)
      simp [hopen] at this
    exact hh.keeps (h.kept c (hconnections c hc) hopen') (by simp [hopen])
  games := hgames
  accepting := haccepting.trans h.accepting

/-- Handing over between two states with the same callbacks, connections and
flags. -/
theorem Ownership.moved {s s' : Server} (h : s.Ownership)
    (hh : Handover (fun c => s'.closed c = true) s.playersAt s'.playersAt)
    (hgames : ∀ g, (s'.manager.conductors g).InOrder s'.closed)
    (haccepting : s'.manager.finishRequested = s.manager.finishRequested)
    (hcallbacks : s'.callbacks = s.callbacks) (hconnections : s'.connections = s.connections)
    (hclosed : s'.closed = s.closed) : s'.Ownership :=
  h.handover hh (fun c hc => by rwa [hcallbacks]) (fun c hc => hconnections ▸ hc) (fun c hc => by rwa [hclosed])
    hgames haccepting

/-- The players, the connections and the games stay as they are. -/
theorem Ownership.same {s s' : Server} (h : s.Ownership) (hplayers : ∀ p, s'.playersAt p = s.playersAt p)
    (hregistered : ∀ c, (s.callbacks c).registered = true → (s'.callbacks c).registered = true)
    (hconnections : ∀ c ∈ s'.connections, c ∈ s.connections) (hclosed : s'.closed = s.closed)
    (hmanager : s'.manager = s.manager) : s'.Ownership := by
  refine h.handover (.same fun p => by rw [hplayers p]) hregistered hconnections
    (fun c hc => hclosed ▸ hc) (fun g => ?_) (by rw [hmanager])
  rw [hmanager, hclosed]
  exact h.games g

/-- A step that touches none of what the players' places are made of. -/
theorem Ownership.frame {s s' : Server} (h : s.Ownership) (hcallbacks : s'.callbacks = s.callbacks)
    (hconnections : s'.connections = s.connections) (hclosed : s'.closed = s.closed)
    (hlobby : s'.lobby = s.lobby) (hmatchMaker : s'.matchMaker = s.matchMaker)
    (hmanager : s'.manager = s.manager) : s'.Ownership := by
  refine h.same (fun p => ?_) (fun c hc => by rwa [hcallbacks]) (fun c hc => hconnections ▸ hc) hclosed hmanager
  cases p <;> simp only [playersAt, hcallbacks, hlobby, hmatchMaker, hmanager]

/-! ## Callbacks -/

theorem between_update {s : Server} {c : ConnId} {pc : CallbackPc} (h : pc.between = (s.callbacks c).between)
    (c' : ConnId) : (Function.update s.callbacks c pc c').between = (s.callbacks c').between :=
  (Function.forall_update_iff s.callbacks fun c' pc => pc.between = (s.callbacks c').between).mpr
    ⟨h, fun _ _ => rfl⟩ c'

theorem registered_update {s : Server} {c : ConnId} {pc : CallbackPc}
    (h : (s.callbacks c).registered = true → pc.registered = true) (c' : ConnId) :
    (s.callbacks c').registered = true → (Function.update s.callbacks c pc c').registered = true :=
  (Function.forall_update_iff s.callbacks
    fun c' pc => (s.callbacks c').registered = true → pc.registered = true).mpr ⟨h, fun _ _ => id⟩ c'

/-- A scan lets go of closed connections only. -/
theorem Ownership.scanned {s s' : Server} (h : s.Ownership) (place : Place) {stash stash' : List Waiting}
    (hstash : s.playersAt place = stash.map Waiting.id) (hstash' : s'.playersAt place = stash'.map Waiting.id)
    (hscan : stash' = stash.filter fun w => !s.closed w.id)
    (hothers : ∀ p, p ≠ place → s'.playersAt p = s.playersAt p)
    (hregistered : ∀ c, (s.callbacks c).registered = true → (s'.callbacks c).registered = true)
    (hconnections : s'.connections = s.connections) (hclosed : s'.closed = s.closed)
    (hmanager : s'.manager = s.manager) : s'.Ownership := by
  refine h.handover (.release (fun p => ?_) fun p c hc hlost => ?_) hregistered
    (fun c hc => hconnections ▸ hc) (fun c hc => hclosed ▸ hc) (fun g => ?_) (by rw [hmanager])
  · by_cases hp : p = place
    · rw [hp, hstash, hstash', hscan]
      exact (List.filter_sublist.map _).subperm
    · rw [hothers p hp]
  · by_cases hp : p = place
    · rw [hp, hstash] at hc
      obtain ⟨w, hw, rfl⟩ := List.mem_map.mp hc
      rw [hp, hstash', hscan]
      refine List.mem_map_of_mem (List.mem_filter.mpr ⟨hw, ?_⟩)
      rw [hclosed] at hlost
      simpa using hlost
    · rwa [hothers p hp]
  · rw [hmanager, hclosed]
    exact h.games g

/-- `connections_.push_back`: the connection comes in, held nowhere so far. -/
theorem Ownership.opened {s s' : Server} {c : ConnId} (h : s.Ownership) (hplace : s.callbacks c = .register)
    (hcallbacks : s'.callbacks = Function.update s.callbacks c .lockPush)
    (hconnections : s'.connections = s.connections ++ [c]) (hclosed : s'.closed = s.closed)
    (hlobby : s'.lobby = s.lobby) (hmatchMaker : s'.matchMaker = s.matchMaker)
    (hmanager : s'.manager = s.manager) : s'.Ownership := by
  have hfresh : ¬ Held s.playersAt c := fun hc => by
    have := h.registered c hc
    simp [hplace, CallbackPc.registered] at this
  have hothers : ∀ p, p ≠ .opening c → s'.playersAt p = s.playersAt p := fun p hp => by
    cases p with
    | opening c' =>
      have hc : c' ≠ c := fun he => hp (he ▸ rfl)
      simp only [playersAt, hcallbacks, Function.update_of_ne hc]
    | lobby => simp only [playersAt, hlobby]
    | buffer => simp only [playersAt, hmatchMaker]
    | handOver => simp only [playersAt, hmanager]
    | game g => simp only [playersAt, hmanager]
  have hself : s.playersAt (.opening c) = [] := by simp [playersAt, hplace, CallbackPc.between]
  have hself' : s'.playersAt (.opening c) = [c] := by simp [playersAt, hcallbacks, CallbackPc.between]
  have hheld : ∀ c', Held s'.playersAt c' ↔ c' = c ∨ Held s.playersAt c' := fun c' => by
    constructor
    · intro ⟨p, hp⟩
      by_cases hpc : p = .opening c
      · rw [hpc, hself'] at hp
        exact .inl (List.mem_singleton.mp hp)
      · exact .inr ⟨p, hothers p hpc ▸ hp⟩
    · rintro (rfl | ⟨p, hp⟩)
      · exact ⟨_, hself' ▸ List.mem_singleton.mpr rfl⟩
      · refine ⟨p, hothers p (fun he => ?_) ▸ hp⟩
        rw [he, hself] at hp
        exact List.not_mem_nil hp
  refine ⟨h.exclusive.receive hfresh (by rw [hself, hself']) hothers, fun c' hc' => ?_, fun c' hc' hopen => ?_,
    fun g => by rw [hmanager, hclosed]; exact h.games g, by rw [hmanager]; exact h.accepting⟩
  · rw [hcallbacks]
    rcases (hheld c').mp hc' with rfl | hc'
    · simp [CallbackPc.registered]
    · exact registered_update (fun _ => rfl) c' (h.registered c' hc')
  · rw [hconnections, List.mem_append, List.mem_singleton] at hc'
    rw [hclosed] at hopen
    exact (hheld c').mpr (hc'.symm.imp_right fun hc' => h.kept c' hc' hopen)

theorem CallbackStep.ownership {s s' : Server} {c : ConnId} (h : s.Ownership) (hstep : CallbackStep s c s') :
    s'.Ownership := by
  cases hstep with
  | move pc pc' op d place walk free data =>
    have hregistered : ∀ c', (s.callbacks c').registered = true →
        (Function.update s.callbacks c pc' c').registered = true :=
      registered_update fun hr => CallbackWalk.registered walk (place ▸ hr)
    -- but for the two pushes, the callback stays on its side of them
    have hbetween : pc ≠ .register → pc ≠ .push → ∀ c',
        (Function.update s.callbacks c pc' c').between = (s.callbacks c').between :=
      fun hregister hpush => between_update (place.symm ▸ CallbackWalk.between walk hregister hpush)
    cases data with
    | quiet _ hq =>
      have hb := hbetween (fun he => by simp [he, CallbackPc.quiet] at hq) fun he => by
        simp [he, CallbackPc.quiet] at hq
      refine h.same (fun p => ?_) hregistered (fun _ hc => hc) rfl rfl
      cases p with
      | opening c' => simp only [playersAt, hb c']
      | _ => rfl
    | setClosed =>
      have hb := hbetween (by simp) (by simp)
      have hclosed : ∀ c', s.closed c' = true → Function.update s.closed c true c' = true :=
        (Function.forall_update_iff s.closed fun c' b => s.closed c' = true → b = true).mpr
          ⟨fun _ => rfl, fun _ _ => id⟩
      refine h.handover (.same fun p => ?_) hregistered (fun _ hc => hc) hclosed
        (fun g => (h.games g).mono hclosed) rfl
      cases p with
      | opening c' => simp only [playersAt, hb c']; exact .refl _
      | _ => exact .refl _
    | erase =>
      have hb := hbetween (by simp) (by simp)
      refine h.same (fun p => ?_) hregistered (fun _ hc => List.mem_of_mem_erase hc) rfl rfl
      cases p with
      | opening c' => simp only [playersAt, hb c']
      | _ => rfl
    | scanLobby rest n lobby scanned =>
      have hb := hbetween (by simp) (by simp)
      refine h.scanned .lobby rfl rfl (by rw [Lobby.onConnectionClosed_ok scanned])
        (fun p hp => ?_) hregistered rfl rfl rfl
      cases p with
      | opening c' => simp only [playersAt, hb c']
      | lobby => exact absurd rfl hp
      | _ => rfl
    | scanBuffer rest n matchMaker scanned =>
      have hb := hbetween (by simp) (by simp)
      refine h.scanned .buffer rfl rfl (by rw [MatchMaker.onConnectionClosed_ok scanned])
        (fun p hp => ?_) hregistered rfl rfl rfl
      cases p with
      | opening c' => simp only [playersAt, hb c']
      | buffer => exact absurd rfl hp
      | _ => rfl
    | register =>
      cases walk
      exact h.opened place rfl rfl rfl rfl rfl rfl
    | push =>
      cases walk
      refine h.handover (.transfer (.opening c) .lobby [c] (by simp) ?_ ?_ fun p hopening hlobby => ?_)
        hregistered (fun _ hc => hc) (fun _ hc => hc) h.games rfl
      · simp [playersAt, place, CallbackPc.between]
      · simp [playersAt, Lobby.push]
      · cases p with
        | opening c' =>
          have hc : c' ≠ c := fun he => hopening (he ▸ rfl)
          simp only [playersAt, Function.update_of_ne hc]
        | lobby => exact absurd rfl hlobby
        | _ => rfl
  | notFound => exact h.frame rfl rfl rfl rfl rfl rfl
  | scanFails => exact h.frame rfl rfl rfl rfl rfl rfl

/-! ## The match maker -/

/-- The games and the argument of `CreateMatchConductor` hold the same players
as before. -/
theorem Ownership.kept_games {s : Server} {manager : MatchConductorManager} (h : s.Ownership)
    (hargument : manager.argument = s.manager.argument)
    (hseated : ∀ g, (manager.conductors g).seated = (s.manager.conductors g).seated)
    (hgames : ∀ g, (manager.conductors g).InOrder s.closed)
    (haccepting : manager.finishRequested = s.manager.finishRequested) :
    ({ s with manager } : Server).Ownership := by
  refine h.moved (.same fun p => ?_) hgames haccepting rfl rfl rfl
  cases p with
  | handOver => simp only [playersAt, hargument]; exact .refl _
  | game g => simp only [playersAt, hseated g]; exact .refl _
  | _ => exact .refl _

/-- `CreateMatchConductor` moves its argument into the game it makes, and
deletes only games that hold nobody. -/
theorem Ownership.created {s : Server} {manager : MatchConductorManager} (h : s.Ownership)
    (hinv : s.manager.Inv) (hcreated : s.manager.createStep = some (.ok manager)) :
    ({ s with manager } : Server).Ownership := by
  have haccepting := MatchConductorManager.createStep_finishRequested hcreated
  cases (MatchConductorManager.createStep_spec hinv hcreated).2 with
  | moved conductors made argument =>
    exact h.kept_games argument (fun g => by rw [conductors]) (fun g => by rw [conductors]; exact h.games g)
      haccepting
  | refused requested => exact absurd (requested.symm.trans h.accepting) (by simp)
  | deleted g finished waited conductors made argument =>
    obtain ⟨hempty, hrest⟩ := (h.games g).stopped finished
    refine h.kept_games argument (fun g' => ?_) (fun g' => ?_) haccepting
    · rw [conductors, MatchConductorManager.delete_conductors]
      split
      next heq =>
        simp only [Option.some.injEq] at heq
        subst heq
        simp [MatchConductor.seated, MatchConductor.destroy, hempty]
      next => rfl
    · rw [conductors, MatchConductorManager.delete_conductors]
      split
      next heq =>
        simp only [Option.some.injEq] at heq
        subst heq
        exact ⟨by simp [MatchConductor.destroy], fun _ _ => rfl, fun _ => ⟨rfl, hrest⟩⟩
      next => exact h.games g'
  | made c construct conductors made argument =>
    obtain ⟨-, rfl⟩ := MatchConductorManager.construct_ok construct
    have hbefore := hinv.unmade s.manager.made (Nat.le_refl _)
    refine h.moved (.transfer .handOver (.game s.manager.made) s.manager.argument.reduceOption (by simp)
      ?_ ?_ fun p hhandOver hgame => ?_) (fun g => ?_) haccepting rfl rfl rfl
    · simp [playersAt, argument]
    · simp [playersAt, conductors, hbefore, MatchConductor.seated, MatchConductorManager.unmade, GamePc.value]
    · cases p with
      | handOver => exact absurd rfl hhandOver
      | game g =>
        have hg : g ≠ s.manager.made := fun he => hgame (he ▸ rfl)
        simp only [playersAt, conductors, Function.update_of_ne hg]
      | _ => rfl
    · by_cases hg : g = s.manager.made
      · simp only [conductors, hg, Function.update_self]
        exact ⟨by simp [GamePc.visited], by simp, by simp⟩
      · simp only [conductors, Function.update_of_ne hg]
        exact h.games g
  | started g create conductors made argument =>
    have hpc := hinv.starting g create
    refine h.kept_games argument (fun g' => ?_) (fun g' => ?_) haccepting
    · by_cases hg : g' = g
      · subst hg
        rw [conductors, Function.update_self, MatchConductor.seated_goto (by rw [hpc]; rfl)]
      · rw [conductors, Function.update_of_ne hg]
    · by_cases hg : g' = g
      · subst hg
        rw [conductors, Function.update_self]
        exact ⟨by simp [MatchConductor.goto, GamePc.visited], by simp [MatchConductor.goto],
          fun hs => ⟨((h.games g').stopped hs).1, .inl rfl⟩⟩
      · rw [conductors, Function.update_of_ne hg]
        exact h.games g'

theorem MakerStep.ownership {s s' : Server} (hl : s.Linked) (h : s.Ownership) (hstep : MakerStep s s') :
    s'.Ownership := by
  cases hstep with
  | move pc pc' op d place walk free data =>
    cases data with
    | quiet => exact h.frame rfl rfl rfl rfl rfl rfl
    | fill =>
      refine h.moved ?_ h.games rfl rfl rfl rfl
      unfold MatchMaker.fill
      split
      next => exact .same fun p => by cases p <;> exact .refl _
      next front rest hdata =>
        split
        next => exact .same fun p => by cases p <;> exact .refl _
        next =>
          refine .transfer .lobby .buffer [front.id] (by simp) ?_ ?_ fun p hlobby hbuffer => ?_
          · simp [playersAt, hdata]
          · simp [playersAt]
          · cases p with
            | lobby => exact absurd rfl hlobby
            | buffer => exact absurd rfl hbuffer
            | _ => rfl
    | assemble players matchMaker full taken =>
      have hidle : s.manager.create = .idle := hl.idle (by rw [place]; cases walk; simp)
      rw [MatchMaker.assembleGame_of_full full, Except.ok.injEq, Prod.mk.injEq] at taken
      obtain ⟨rfl, rfl⟩ := taken
      refine h.moved (.transfer .buffer .handOver (s.matchMaker.intermediateBuffer.map Waiting.id) (by simp)
        ?_ ?_ fun p hbuffer hhandOver => ?_) h.games rfl rfl rfl rfl
      · simp [playersAt]
      · simp [playersAt, MatchConductorManager.argument, hidle, List.reduceOption]
      · cases p with
        | buffer => exact absurd rfl hbuffer
        | handOver => exact absurd rfl hhandOver
        | _ => rfl
  | create manager place created => exact h.created hl.inv created
  | created => exact h.frame rfl rfl rfl rfl rfl rfl
  | assembleFails => exact h.frame rfl rfl rfl rfl rfl rfl
  | createFails => exact h.frame rfl rfl rfl rfl rfl rfl

/-! ## Games -/

theorem GameStep.ownership {s s' : Server} {g : GameId} (h : s.Ownership) (hstep : GameStep s g s') :
    s'.Ownership := by
  cases hstep with
  | move c e op lobby stepped live free data =>
    obtain ⟨horder, hseating⟩ := (h.games g).step stepped
    have hgames : ∀ g', ((s.manager.setConductor g c).conductors g').InOrder s.closed :=
      MatchConductorManager.forall_setConductor (fun _ c => c.InOrder s.closed) horder h.games
    refine h.moved ?_ hgames rfl rfl rfl rfl
    cases hseating with
    | pushed value seated =>
      cases data
      refine .transfer (.game g) .lobby [value] (by simp) ?_ ?_ fun p hgame hlobby => ?_
      · simpa [playersAt, MatchConductorManager.setConductor] using seated
      · simp [playersAt, Lobby.push]
      · cases p with
        | game g' =>
          have hg : g' ≠ g := fun he => hgame (he ▸ rfl)
          simp [playersAt, MatchConductorManager.setConductor, hg]
        | lobby => exact absurd rfl hlobby
        | _ => rfl
    | stays _ sub kept hpush =>
      have hlobby : lobby = s.lobby := by
        cases data with
        | push value => exact absurd rfl (hpush value)
        | _ => rfl
      subst hlobby
      refine .release (fun p => ?_) fun p v hv hlost => ?_
      · cases p with
        | game g' =>
          by_cases hg : g' = g
          · subst hg
            simpa [playersAt, MatchConductorManager.setConductor] using sub
          · simpa [playersAt, MatchConductorManager.setConductor, hg] using List.Subperm.refl _
        | _ => exact .refl _
      · cases p with
        | game g' =>
          by_cases hg : g' = g
          · subst hg
            simpa [playersAt, MatchConductorManager.setConductor] using kept v hv (by simpa using hlost)
          · simpa [playersAt, MatchConductorManager.setConductor, hg] using hv
        | _ => exact hv
  | fails => exact h.frame rfl rfl rfl rfl rfl rfl

/-! ## Every step -/

/-- A step of the main thread to a place before shutdown starts before shutdown
and moves no player. -/
theorem MainStep.ownership {s s' : Server} (hstep : MainStep s s') (hbefore : s'.main.beforeEnd = true) :
    s.main.beforeEnd = true ∧ (s.Ownership → s'.Ownership) := by
  cases hstep with
  | move pc pc' op d place walk free data =>
    have hpc : s.main.beforeEnd = true := by
      rw [place]
      cases walk <;> first | rfl | (simp [MainPc.beforeEnd] at hbefore)
    refine ⟨hpc, fun h => ?_⟩
    rw [place] at hpc
    cases data with
    | lockStart => exact h.frame rfl rfl rfl rfl rfl rfl
    | unlockStart => exact h.frame rfl rfl rfl rfl rfl rfl
    | startManager => exact h.frame rfl rfl rfl rfl rfl rfl
    | startServer => exact h.frame rfl rfl rfl rfl rfl rfl
    | startMaker => exact h.frame rfl rfl rfl rfl rfl rfl
    | _ => simp [MainPc.beforeEnd] at hpc
  | finish manager rest place => simp [place, MainPc.beforeEnd] at hbefore
  | fails =>
    exact ⟨hbefore, fun h => h.frame rfl rfl rfl rfl rfl rfl⟩

/-- The thread of a connection turns to a callback. -/
theorem Ownership.called {s s' : Server} (c : ConnId) (pc : CallbackPc) (h : s.Ownership)
    (hbetween : pc.between = (s.callbacks c).between)
    (hpc : (s.callbacks c).registered = true → pc.registered = true)
    (hcallbacks : s'.callbacks = Function.update s.callbacks c pc) (hlobby : s'.lobby = s.lobby)
    (hmatchMaker : s'.matchMaker = s.matchMaker) (hmanager : s'.manager = s.manager)
    (hconnections : s'.connections = s.connections) (hclosed : s'.closed = s.closed) : s'.Ownership := by
  refine h.same (fun p => ?_) (fun c' hc' => ?_) (fun c' hc' => hconnections ▸ hc') hclosed hmanager
  · cases p with
    | opening c' => simp only [playersAt, hcallbacks, between_update hbetween c']
    | lobby => simp only [playersAt, hlobby]
    | buffer => simp only [playersAt, hmatchMaker]
    | handOver => simp only [playersAt, hmanager]
    | game g => simp only [playersAt, hmanager]
  · rw [hcallbacks]
    exact registered_update hpc c' hc'

/-- **A step to a state before shutdown** starts before shutdown, and keeps the
players in their places. -/
theorem Ownership.step {s s' : Server} {a : Action} (hl : s.Linked)
    (h : s.main.beforeEnd = true → s.Ownership) (hstep : s.step a = some s')
    (hbefore : s'.main.beforeEnd = true) : s'.Ownership := by
  cases (step_cases hstep).2 with
  | connect c listening fresh =>
    have hidle := hl.fresh c fresh
    exact Ownership.called c .openTestStop (h hbefore) (by rw [hidle]; rfl)
      (fun hr => by simp [hidle, CallbackPc.registered] at hr) rfl rfl rfl rfl rfl rfl
  | disconnect c listening opened =>
    exact Ownership.called c .closeTestStop (h hbefore) (by rw [opened]; rfl) (fun _ => rfl)
      rfl rfl rfl rfl rfl rfl
  | socketGone =>
    exact (h hbefore).frame rfl rfl rfl rfl rfl rfl
  | quit => simp [mainTo, MainPc.beforeEnd] at hbefore
  | main _ hs =>
    obtain ⟨hb, hkeeps⟩ := hs.ownership hbefore
    exact hkeeps (h hb)
  | maker _ hs => exact hs.ownership hl (h (hs.frame.1 ▸ hbefore))
  | callback c _ hs => exact hs.ownership (h (hs.frame.1 ▸ hbefore))
  | game g _ hs => exact hs.ownership (h (hs.frame.1 ▸ hbefore))

/-- Every player is in its place: no connection is held at two places or twice
at one, and every open registered connection is held at exactly one. -/
structure HeldOnce (s : Server) : Prop where
  apart : ∀ p q c, c ∈ s.playersAt p → c ∈ s.playersAt q → p = q
  once : ∀ p, (s.playersAt p).Nodup
  exactlyOne : ∀ c ∈ s.connections, s.closed c = false → ∃! p, c ∈ s.playersAt p

/-- **No player is lost or held twice.** In every state of every run in which
the operator has not quit. -/
theorem players_held_once (as : List Action) :
    Transition.Always step (fun s => s.main.beforeEnd = true → s.HeldOnce) initial as := by
  have h : Transition.Always step (fun s => s.Linked ∧ (s.main.beforeEnd = true → s.Ownership)) initial as :=
    Transition.always_of_invariant (fun s a s' h hs => ⟨h.1.step hs, Ownership.step h.1 h.2 hs⟩)
      ⟨Linked.initial, fun _ => Ownership.initial⟩ as
  refine h.mono fun s hs hbefore => ?_
  have ho := hs.2 hbefore
  exact ⟨ho.exclusive.apart, ho.exclusive.nodup, fun c hc hopen => ho.exclusive.existsUnique (ho.kept c hc hopen)⟩

end Server

end PokerEngine
