/-
One game from its start to its end, with what may come in between: `ForceFinish`
by the manager, and players who leave, at any point.

`stop_` is both the request to finish and the mark that the game has finished,
and `kServerFinished` is stored nowhere. A request that comes before `Finish` is
called therefore ends the game without a notice, or with the notice of a normal
end (`ends_iff`).
-/
import PokerEngine.MatchConductorSteps
import PokerEngine.Transition

namespace PokerEngine

/-- A game under way, with the flags of all connections. -/
structure Game where
  conductor : MatchConductor
  closed : ConnId → Bool
  alive : ConnId → Bool
  /-- The players the game was made with (history). -/
  roster : List ConnId
  /-- The calls of `Finish` (history). -/
  finishes : Nat
  /-- `ForceFinish` came before any of them (history). -/
  forced : Bool
  /-- The game ended because a player's socket was gone (history). -/
  gone : Bool

/-- Where `ConductGame` calls `Finish`. -/
def GamePc.callsFinish : GamePc → Bool
  | .playerLeft => true
  | .sleep => true
  | _ => false

def Message.isFinish : Message → Bool
  | .welcome _ => false
  | .finish _ => true

namespace Game

open MatchConductor (FinishReason)

/-- The conductor of `players`, its thread started. -/
def start (players : List ConnId) (closed alive : ConnId → Bool) : Game where
  conductor :=
    { players := players.map some, stop := false, finishReason := .normal, pc := .head, destroyed := false,
      sent := [] }
  closed
  alive
  roster := players
  finishes := 0
  forced := false
  gone := false

theorem construct_start (players : List ConnId) (closed alive : ConnId → Bool) :
    (MatchConductor.construct (players.map some)).map (·.goto .head) =
      .ok (start players closed alive).conductor := by
  simp [MatchConductor.construct, start, Except.map, MatchConductor.goto]

inductive Action
  /-- The game's thread takes a step. -/
  | thread
  /-- `MatchConductorManager::End` calls `ForceFinish`. -/
  | forceFinish
  /-- The closed callback of a connection sets its flag. -/
  | setClosed (c : ConnId)
  /-- The socket of a connection is destroyed. -/
  | socketGone (c : ConnId)
  /-- Another connection opens. -/
  | connect (c : ConnId)
  deriving DecidableEq, Repr

/-- The game when its thread has taken a step to `conductor`. -/
def after (g : Game) (conductor : MatchConductor) : Game :=
  { g with
    conductor
    finishes := if g.conductor.pc.callsFinish then g.finishes + 1 else g.finishes
    gone := g.gone || g.conductor.pc = .playerLeft }

/-- One step; `none` when the thread has returned, or fails. -/
def step (g : Game) : Action → Option Game
  | .thread =>
    match g.conductor.step g.closed g.alive with
    | none => none
    | some (_, .fault _) => none
    | some (conductor, _) => some (g.after conductor)
  | .forceFinish => some { g with conductor := g.conductor.forceFinish, forced := g.forced || g.finishes = 0 }
  | .setClosed c => some { g with closed := Function.update g.closed c true }
  | .socketGone c => some { g with alive := Function.update g.alive c false }
  | .connect c => if c ∈ g.roster then none else some { g with alive := Function.update g.alive c true }

/-- `p` is still connected. -/
def Connected (g : Game) (p : ConnId) : Prop := g.closed p = false ∧ g.alive p = true

instance (g : Game) (p : ConnId) : Decidable (g.Connected p) := by unfold Connected; infer_instance

/-- How many finish notices `p` was sent. -/
def notices (g : Game) (p : ConnId) : Nat := g.conductor.sent.countP fun n => n.1 = p ∧ n.2.isFinish

/-- The reason that the players should be given. -/
def reason (g : Game) : FinishReason :=
  if g.gone then .playerLeft else if g.forced then .serverFinished else .normal

/-- `Finish` ran at most once, the notices sent give the reason, and when the
thread has returned every player still connected was sent one. -/
structure Ends (g : Game) : Prop where
  once : g.finishes ≤ 1
  reasons : ∀ p r, (p, .finish r) ∈ g.conductor.sent → r = g.reason
  notified : g.conductor.pc = .returned → ∀ p ∈ g.roster, g.Connected p → g.notices p = 1

/-- The condition on a step: after a `ForceFinish` that came before `Finish`,
the thread leaves the loop without `Finish` only when no player is connected,
and `Finish`, unless a player had left, meets no live socket. -/
def Unforced (g : Game) (a : Action) : Prop :=
  a = .thread → g.forced = true →
    (g.conductor.pc = .head → g.finishes = 0 → ∀ p ∈ g.roster, ¬ g.Connected p) ∧
    (∀ i left, g.conductor.pc = .notify i left → g.gone = false → ∀ p, g.conductor.players[i]? = some (some p) →
      g.alive p = false)

/-! ## Steps -/

/-- What a step does to a game. -/
inductive Moves (g : Game) : Action → Game → Prop
  | thread (m : MatchConductor) (e : MatchConductor.Effect) (step : g.conductor.ThreadStep g.closed g.alive m e)
      (fine : ∀ f, e ≠ .fault f) :
    Moves g .thread (g.after m)
  | forceFinish :
    Moves g .forceFinish { g with conductor := g.conductor.forceFinish, forced := g.forced || g.finishes = 0 }
  | setClosed (c : ConnId) : Moves g (.setClosed c) { g with closed := Function.update g.closed c true }
  | socketGone (c : ConnId) : Moves g (.socketGone c) { g with alive := Function.update g.alive c false }
  | connect (c : ConnId) (other : c ∉ g.roster) :
    Moves g (.connect c) { g with alive := Function.update g.alive c true }

theorem step_moves {g g' : Game} {a : Action} (h : g.step a = some g') : Moves g a g' := by
  cases a with
  | thread =>
    simp only [step] at h
    split at h
    · simp at h
    · simp at h
    · next m e hf hm =>
      obtain rfl := Option.some.inj h
      exact .thread m e (MatchConductor.step_cases hm) hf
  | forceFinish =>
    obtain rfl := Option.some.inj h
    exact .forceFinish
  | setClosed c =>
    obtain rfl := Option.some.inj h
    exact .setClosed c
  | socketGone c =>
    obtain rfl := Option.some.inj h
    exact .socketGone c
  | connect c =>
    simp only [step] at h
    split at h
    · simp at h
    · next other =>
      obtain rfl := Option.some.inj h
      exact .connect c other

/-! ## Finish -/

/-- The players from the `k`th on are in their places. -/
def Seats (g : Game) (k : Nat) : Prop := g.conductor.players.drop k = (g.roster.map some).drop k

/-- The first `k` players had their turn: those still connected were sent one
notice, and nobody else was sent any. -/
def Told (g : Game) (k : Nat) : Prop :=
  (∀ p ∈ g.roster.take k, g.Connected p → g.notices p = 1) ∧ ∀ p ∉ g.roster.take k, g.notices p = 0

/-- What holds while the thread is at a place. -/
def At (g : Game) : GamePc → Prop
  | .unstarted => False
  | .head => g.finishes = 0 ∧ g.Seats 0 ∧ g.Told 0 ∨
    g.finishes = 1 ∧ g.conductor.stop = true ∧ g.Told g.roster.length
  | .welcome _ => g.finishes = 0 ∧ g.Seats 0 ∧ g.Told 0
  | .playerLeft => g.finishes = 0 ∧ g.Seats 0 ∧ g.Told 0
  | .sleep => g.finishes = 0 ∧ g.Seats 0 ∧ g.Told 0
  | .finish i _ => g.finishes = 1 ∧ g.Seats i ∧ g.Told i
  | .notify i _ => g.finishes = 1 ∧ g.Seats i ∧ g.Told i ∧ ∃ p, g.conductor.players[i]? = some (some p)
  | .testStop i _ => g.finishes = 1 ∧ g.Seats i ∧ g.Told (i + 1) ∧ ∃ p, g.conductor.players[i]? = some (some p)
  | .pushLock i _ _ => g.finishes = 1 ∧ g.Seats (i + 1) ∧ g.Told (i + 1)
  | .push i _ _ => g.finishes = 1 ∧ g.Seats (i + 1) ∧ g.Told (i + 1)
  | .clear _ => g.finishes = 1 ∧ g.Told g.roster.length
  | .setStop _ => g.finishes = 1 ∧ g.Told g.roster.length
  | .returned => g.finishes = 0 ∧ g.Told 0 ∨ g.finishes = 1 ∧ g.Told g.roster.length

structure Inv (g : Game) : Prop where
  distinct : g.roster.Nodup
  here : g.At g.conductor.pc
  stored : g.conductor.finishReason = if g.gone then .playerLeft else .normal
  asked : g.finishes = 0 → g.forced = g.conductor.stop

theorem Seats.getElem? {g : Game} {k : Nat} (h : g.Seats k) : g.conductor.players[k]? = g.roster[k]?.map some := by
  have hk := congrArg (·[0]?) h
  simpa using hk

theorem Seats.later {g : Game} {k i : Nat} (h : g.Seats k) (hk : k ≤ i) : g.Seats i := by
  have hi := congrArg (List.drop (i - k)) h
  simpa [Seats, List.drop_drop, Nat.add_sub_cancel' hk] using hi

theorem Seats.player {g : Game} {k : Nat} (h : g.Seats k) {p : ConnId}
    (hp : g.conductor.players[k]? = some (some p)) : g.roster[k]? = some p := by
  simpa [h.getElem?] using hp

theorem Seats.past {g : Game} {k : Nat} (h : g.Seats k) (hp : g.conductor.players[k]? = none) :
    g.roster.length ≤ k := by
  simpa [h.getElem?] using hp

theorem mem_take_succ {roster : List ConnId} {k : Nat} {p q : ConnId} (hp : roster[k]? = some p) :
    q ∈ roster.take (k + 1) ↔ q ∈ roster.take k ∨ q = p := by
  simp [List.take_add_one, hp]

/-- The turn of a player that is not connected passes. -/
theorem Told.pass {g : Game} {k : Nat} {p : ConnId} (h : g.Told k) (hp : g.roster[k]? = some p)
    (hgone : ¬ g.Connected p) : g.Told (k + 1) := by
  constructor
  · intro q hq hc
    rcases (mem_take_succ hp).mp hq with hq | rfl
    · exact h.1 q hq hc
    · exact absurd hc hgone
  · intro q hq
    exact h.2 q fun hk => hq ((mem_take_succ hp).mpr (.inl hk))

theorem Told.greet {g : Game} {k : Nat} (h : g.Told k) (p : ConnId) (pc : GamePc) :
    ({ g with conductor := (g.conductor.send p (.welcome p)).goto pc } : Game).Told k := by
  have hnotices (q : ConnId) :
      ({ g with conductor := (g.conductor.send p (.welcome p)).goto pc } : Game).notices q = g.notices q := by
    simp [notices, MatchConductor.send, MatchConductor.goto, List.countP_append, Message.isFinish]
  constructor
  · intro q hq hc
    rw [hnotices]
    exact h.1 q hq hc
  · intro q hq
    rw [hnotices]
    exact h.2 q hq

/-- A player is told at its turn. -/
theorem Told.tell {g : Game} {k : Nat} {p : ConnId} (h : g.Told k) (hdistinct : g.roster.Nodup)
    (hp : g.roster[k]? = some p) (r : FinishReason) (pc : GamePc) :
    ({ g with conductor := (g.conductor.send p (.finish r)).goto pc } : Game).Told (k + 1) := by
  have hnotices (q : ConnId) :
      ({ g with conductor := (g.conductor.send p (.finish r)).goto pc } : Game).notices q =
        g.notices q + if p = q then 1 else 0 := by
    simp [notices, MatchConductor.send, MatchConductor.goto, List.countP_append, List.countP_cons, Message.isFinish]
  have hlater : p ∈ g.roster.drop k := List.mem_iff_getElem?.mpr ⟨0, by simpa using hp⟩
  have hfirst : p ∉ g.roster.take k := fun hk => List.disjoint_take_drop hdistinct (Nat.le_refl k) hk hlater
  constructor
  · intro q hq hc
    rw [hnotices]
    rcases (mem_take_succ hp).mp hq with hq | rfl
    · have hne : p ≠ q := fun he => hfirst (he ▸ hq)
      simpa [hne] using h.1 q hq hc
    · simp [h.2 q hfirst]
  · intro q hq
    have hq' : q ∉ g.roster.take k ∧ q ≠ p := not_or.mp fun hk => hq ((mem_take_succ hp).mpr hk)
    rw [hnotices, if_neg (Ne.symm hq'.2), h.2 q hq'.1]

theorem Told.past {g : Game} {k : Nat} (h : g.Told k) (hk : g.roster.length ≤ k) : g.Told g.roster.length := by
  have htake : g.roster.take g.roster.length = g.roster.take k := by
    rw [List.take_length, List.take_of_length_le hk]
  unfold Told at h ⊢
  rwa [htake]

/-- Those told stay so while players leave. -/
theorem Told.mono {g g' : Game} {k : Nat} (h : g.Told k) (hroster : g'.roster = g.roster)
    (hsent : g'.conductor.sent = g.conductor.sent)
    (hconnected : ∀ p ∈ g.roster, g'.Connected p → g.Connected p) : g'.Told k := by
  have hnotices (p : ConnId) : g'.notices p = g.notices p := by simp [notices, hsent]
  constructor
  · intro p hp hc
    rw [hroster] at hp
    rw [hnotices]
    exact h.1 p hp (hconnected p (List.mem_of_mem_take hp) hc)
  · intro p hp
    rw [hnotices]
    exact h.2 p (hroster ▸ hp)

/-- What holds at a place still does when players leave, or the game is forced
to finish. -/
theorem At.mono {g g' : Game} {pc : GamePc} (h : g.At pc) (hroster : g'.roster = g.roster)
    (hfinishes : g'.finishes = g.finishes) (hplayers : g'.conductor.players = g.conductor.players)
    (hsent : g'.conductor.sent = g.conductor.sent) (hstop : g.conductor.stop = true → g'.conductor.stop = true)
    (hconnected : ∀ p ∈ g.roster, g'.Connected p → g.Connected p) : g'.At pc := by
  have hseats {k : Nat} (hk : g.Seats k) : g'.Seats k := by
    unfold Seats
    rwa [hplayers, hroster]
  have htold {k : Nat} (hk : g.Told k) : g'.Told k := hk.mono hroster hsent hconnected
  cases pc with
  | unstarted => exact h
  | head =>
    rcases h with ⟨hf, hs, ht⟩ | ⟨hf, hs, ht⟩
    · exact .inl ⟨hfinishes.trans hf, hseats hs, htold ht⟩
    · exact .inr ⟨hfinishes.trans hf, hstop hs, hroster ▸ htold ht⟩
  | welcome | playerLeft | sleep | finish | pushLock | push =>
    exact ⟨hfinishes.trans h.1, hseats h.2.1, htold h.2.2⟩
  | notify | testStop => exact ⟨hfinishes.trans h.1, hseats h.2.1, htold h.2.2.1, hplayers ▸ h.2.2.2⟩
  | clear | setStop => exact ⟨hfinishes.trans h.1, hroster ▸ htold h.2⟩
  | returned =>
    rcases h with ⟨hf, ht⟩ | ⟨hf, ht⟩
    · exact .inl ⟨hfinishes.trans hf, htold ht⟩
    · exact .inr ⟨hfinishes.trans hf, hroster ▸ htold ht⟩

theorem after_eq {g : Game} (h : g.conductor.pc.callsFinish = false) (m : MatchConductor) :
    g.after m = { g with conductor := m } := by
  have hpc : g.conductor.pc ≠ .playerLeft := fun he => by simp [he, GamePc.callsFinish] at h
  simp [after, h, hpc]

/-- The thread goes on, neither told to stop nor given another reason. -/
theorem Inv.goes {g : Game} (h : g.Inv) {m : MatchConductor} {pc : GamePc} (place : g.conductor.pc = pc)
    (hpc : pc.callsFinish = false) (hreason : m.finishReason = g.conductor.finishReason)
    (hstop : m.stop = g.conductor.stop) (here : g.At pc → ({ g with conductor := m } : Game).At m.pc) :
    (g.after m).Inv := by
  subst place
  rw [after_eq hpc]
  exact ⟨h.distinct, here h.here, hreason.trans h.stored, fun hf => (h.asked hf).trans hstop.symm⟩

theorem Inv.thread {g : Game} {m : MatchConductor} {e : MatchConductor.Effect} (h : g.Inv)
    (hstep : g.conductor.ThreadStep g.closed g.alive m e) (fine : ∀ f, e ≠ .fault f) : (g.after m).Inv := by
  cases hstep with
  | stopped place stop =>
    refine h.goes place rfl rfl rfl fun hhere => ?_
    exact hhere.imp (fun hz => ⟨hz.1, hz.2.2⟩) fun ho => ⟨ho.1, ho.2.2⟩
  | begins place stop =>
    refine h.goes place rfl rfl rfl fun hhere => hhere.resolve_right fun ho => ?_
    exact absurd (stop.symm.trans ho.2.1) (by simp)
  | welcomed i place past => exact h.goes place rfl rfl rfl id
  | greets i p place player live =>
    exact h.goes place rfl rfl rfl fun hhere => ⟨hhere.1, hhere.2.1, hhere.2.2.greet p _⟩
  | misses i p place player gone => exact h.goes place rfl rfl rfl id
  | leaves place =>
    have hhere := h.here
    rw [place] at hhere
    obtain ⟨hf, hs, ht⟩ := hhere
    refine ⟨h.distinct, ⟨?_, hs, ht⟩, ?_, ?_⟩
    · simp [after, place, GamePc.callsFinish, hf]
    · simp [after, place]
    · simp [after, place, GamePc.callsFinish]
  | wakes place =>
    have hhere := h.here
    rw [place] at hhere
    obtain ⟨hf, hs, ht⟩ := hhere
    refine ⟨h.distinct, ⟨?_, hs, ht⟩, ?_, ?_⟩
    · simp [after, place, GamePc.callsFinish, hf]
    · simpa [after, place, MatchConductor.goto] using h.stored
    · simp [after, place, GamePc.callsFinish]
  | finished i left place past =>
    exact h.goes place rfl rfl rfl fun hhere => ⟨hhere.1, hhere.2.2.past (hhere.2.1.past past)⟩
  | skips i left p place player shut =>
    have hgone : ¬ g.Connected p := fun hc => by simpa [shut] using hc.1
    refine h.goes place rfl rfl rfl fun hhere => ?_
    obtain ⟨hf, hs, ht⟩ := hhere
    exact ⟨hf, hs.later (Nat.le_succ i), ht.pass (hs.player player) hgone⟩
  | meets i left p place player opened =>
    exact h.goes place rfl rfl rfl fun hhere => ⟨hhere.1, hhere.2.1, hhere.2.2, p, player⟩
  | notifies i left p place player live =>
    refine h.goes place rfl rfl rfl fun hhere => ?_
    obtain ⟨hf, hs, ht, -⟩ := hhere
    exact ⟨hf, hs, ht.tell h.distinct (hs.player player) _ _, p, player⟩
  | cannotNotify i left p place player gone =>
    have hgone : ¬ g.Connected p := fun hc => by simpa [gone] using hc.2
    refine h.goes place rfl rfl rfl fun hhere => ?_
    obtain ⟨hf, hs, ht, -⟩ := hhere
    exact ⟨hf, hs, ht.pass (hs.player player) hgone, p, player⟩
  | keeps i left place stop =>
    exact h.goes place rfl rfl rfl fun hhere => ⟨hhere.1, hhere.2.1.later (Nat.le_succ i), hhere.2.2.1⟩
  | moves i left p place player stop =>
    have hset : (g.conductor.players.set i none).drop (i + 1) = g.conductor.players.drop (i + 1) :=
      List.drop_set_of_lt (Nat.lt_succ_self i)
    refine h.goes place rfl rfl rfl fun hhere => ?_
    exact ⟨hhere.1, hset.trans (hhere.2.1.later (Nat.le_succ i)), hhere.2.2.1⟩
  | locks i left p place => exact h.goes place rfl rfl rfl id
  | pushes i left p place => exact h.goes place rfl rfl rfl id
  | clears left place => exact h.goes place rfl rfl rfl id
  | fails => exact absurd rfl (fine _)
  | setsStop left place =>
    have hhere := h.here
    rw [place] at hhere
    obtain ⟨hf, ht⟩ := hhere
    rw [after_eq (by rw [place]; rfl)]
    refine ⟨h.distinct, ?_, h.stored, fun hz => absurd (hf.symm.trans hz) (by simp)⟩
    cases left
    · exact .inr ⟨hf, rfl, ht⟩
    · exact .inr ⟨hf, ht⟩

theorem Inv.start {players : List ConnId} (h : players.Nodup) (closed alive : ConnId → Bool) :
    (start players closed alive).Inv :=
  ⟨h, .inl ⟨rfl, rfl, by simp [Game.start], fun _ _ => rfl⟩, rfl, fun _ => rfl⟩

/-- Players who are connected after a step were so before it. -/
theorem Moves.connected {g g' : Game} {a : Action} (h : Moves g a g') :
    ∀ p ∈ g.roster, g'.Connected p → g.Connected p := by
  intro p hp hc
  cases h with
  | thread | forceFinish => exact hc
  | setClosed c =>
    refine ⟨?_, hc.2⟩
    by_cases he : p = c
    · exact absurd hc.1 (by simp [he])
    · simpa [he] using hc.1
  | socketGone c =>
    refine ⟨hc.1, ?_⟩
    by_cases he : p = c
    · exact absurd hc.2 (by simp [he])
    · simpa [he] using hc.2
  | connect c other =>
    have he : p ≠ c := fun he => other (he ▸ hp)
    exact ⟨hc.1, by simpa [he] using hc.2⟩

theorem Inv.step {g g' : Game} {a : Action} (h : g.Inv) (hstep : g.step a = some g') : g'.Inv := by
  have hconnected := (step_moves hstep).connected
  cases step_moves hstep with
  | thread m e hm fine => exact h.thread hm fine
  | forceFinish =>
    refine ⟨h.distinct, h.here.mono rfl rfl rfl rfl (fun _ => rfl) hconnected, h.stored, fun hf => ?_⟩
    have hz : g.finishes = 0 := hf
    simp [MatchConductor.forceFinish, hz]
  | setClosed | socketGone | connect =>
    exact ⟨h.distinct, h.here.mono rfl rfl rfl rfl id hconnected, h.stored, h.asked⟩

theorem At.calls {g : Game} {pc : GamePc} (h : g.At pc) : g.finishes = 0 ∧ g.Told 0 ∨ g.finishes = 1 := by
  cases pc with
  | unstarted => exact h.elim
  | head => exact h.imp (fun hz => ⟨hz.1, hz.2.2⟩) fun ho => ho.1
  | returned => exact h.imp id fun ho => ho.1
  | welcome | playerLeft | sleep => exact .inl ⟨h.1, h.2.2⟩
  | finish | notify | testStop | pushLock | push | clear | setStop => exact .inr h.1

theorem Inv.once {g : Game} (h : g.Inv) : g.finishes ≤ 1 := by
  rcases h.here.calls with ⟨hf, -⟩ | hf <;> omega

/-- Before `Finish` is called nobody has a notice. -/
theorem Inv.silent {g : Game} (h : g.Inv) (hf : g.finishes = 0) (p : ConnId) : g.notices p = 0 := by
  rcases h.here.calls with ⟨-, ht⟩ | ho
  · exact ht.2 p (by simp)
  · exact absurd (hf.symm.trans ho) (by simp)

theorem Seats.ne_moved {g : Game} {k : Nat} (h : g.Seats k) : g.conductor.players[k]? ≠ some none := by
  rw [h.getElem?]
  cases g.roster[k]? <;> simp

/-- The thread never fails: it has a step until it has returned. -/
theorem Inv.thread_goes {g : Game} (h : g.Inv) (hpc : g.conductor.pc ≠ .returned) :
    ∃ g', g.step .thread = some g' := by
  have hhere := h.here
  suffices hs : ∃ m e, g.conductor.step g.closed g.alive = some (m, e) ∧ ∀ f, e ≠ .fault f by
    obtain ⟨m, e, hm, hf⟩ := hs
    refine ⟨g.after m, ?_⟩
    simp only [Game.step, hm]
  unfold MatchConductor.step
  cases hplace : g.conductor.pc <;> rw [hplace] at hhere
  case unstarted => exact hhere.elim
  case returned => exact absurd hplace hpc
  case welcome i =>
    dsimp only
    split
    · exact ⟨_, _, rfl, nofun⟩
    · next hp => exact absurd hp (hhere.2.1.later (Nat.zero_le i)).ne_moved
    · split <;> exact ⟨_, _, rfl, nofun⟩
  case finish i left =>
    dsimp only
    split
    · exact ⟨_, _, rfl, nofun⟩
    · next hp => exact absurd hp hhere.2.1.ne_moved
    · exact ⟨_, _, rfl, nofun⟩
  case notify i left =>
    obtain ⟨-, -, -, p, hp⟩ := hhere
    simp only [hp]
    exact ⟨_, _, rfl, nofun⟩
  case testStop i left =>
    obtain ⟨-, -, -, p, hp⟩ := hhere
    simp only [hp]
    split <;> exact ⟨_, _, rfl, nofun⟩
  all_goals exact ⟨_, _, rfl, nofun⟩

/-! ## How a game ends -/

theorem Inv.not_mem_sent {g : Game} (h : g.Inv) (hf : g.finishes = 0) (p : ConnId) (r : FinishReason) :
    (p, .finish r) ∉ g.conductor.sent := by
  intro hr
  have hsilent := List.countP_eq_zero.mp (h.silent hf p) _ hr
  simp [Message.isFinish] at hsilent

/-- A step that sends no notice, and does not end the thread. -/
theorem Ends.goes {g g' : Game} (h : g.Ends) (hg : g.Inv) (hg' : g'.Inv)
    (hsent : ∀ p r, (p, .finish r) ∈ g'.conductor.sent → (p, .finish r) ∈ g.conductor.sent)
    (hreason : g.finishes = 0 ∨ g'.reason = g.reason) (hpc : g'.conductor.pc ≠ .returned) : g'.Ends := by
  refine ⟨hg'.once, fun p r hr => ?_, fun hret => absurd hret hpc⟩
  rcases hreason with hf | hreason
  · exact absurd (hsent p r hr) (hg.not_mem_sent hf p r)
  · exact (h.reasons p r (hsent p r hr)).trans hreason.symm

theorem unforced_of_place {g : Game} {a : Action} {pc : GamePc} (place : g.conductor.pc = pc) (hhead : pc ≠ .head)
    (hnotify : ∀ i left, pc ≠ .notify i left) : g.Unforced a :=
  fun _ _ => ⟨fun h => absurd (place.symm.trans h) hhead,
    fun i left h => absurd (place.symm.trans h) (hnotify i left)⟩

/-- The thread leaves the loop: `Finish` has told the players, or nobody is left
to tell. -/
theorem Inv.ends_stopped {g : Game} (hg : g.Inv) (h : g.Ends) (place : g.conductor.pc = .head)
    (stop : g.conductor.stop = true) : (g.after (g.conductor.goto .returned)).Ends ↔ g.Unforced .thread := by
  have hg' := hg.thread (.stopped place stop) nofun
  have hhere := hg.here
  rw [place] at hhere
  rw [after_eq (by rw [place]; rfl)] at hg' ⊢
  constructor
  · intro he _ _
    refine ⟨fun _ hf p hp hc => ?_, fun i left hn => absurd (place.symm.trans hn) (by simp)⟩
    have hone : g.notices p = 1 := he.notified rfl p hp hc
    exact absurd ((hg.silent hf p).symm.trans hone) (by simp)
  · intro hu
    refine ⟨hg'.once, fun p r hr => h.reasons p r hr, fun _ p hp hc => ?_⟩
    rcases hhere with ⟨hf, -, -⟩ | ⟨-, -, ht⟩
    · have hforced : g.forced = true := (hg.asked hf).trans stop
      exact absurd hc ((hu rfl hforced).1 place hf p hp)
    · exact ht.1 p (by simpa using hp) hc

/-- A notice is sent: it gives the right reason unless a `ForceFinish` came
first. -/
theorem Inv.ends_notifies {g : Game} (hg : g.Inv) (h : g.Ends) {i : Nat} {left : Bool} {p : ConnId}
    (place : g.conductor.pc = .notify i left) (player : g.conductor.players[i]? = some (some p))
    (live : g.alive p = true) :
    (g.after ((g.conductor.send p (.finish g.conductor.finishReason)).goto (.testStop i left))).Ends ↔
      g.Unforced .thread := by
  have hg' := hg.thread (.notifies i left p place player live) nofun
  rw [after_eq (by rw [place]; rfl)] at hg' ⊢
  have hstored := hg.stored
  constructor
  · intro he _ hforced
    refine ⟨fun hh => absurd (place.symm.trans hh) (by simp), fun i' left' hn hgone q hq => ?_⟩
    have hreason : g.conductor.finishReason = g.reason :=
      he.reasons p _ (List.mem_append.mpr (.inr (List.mem_singleton_self _)))
    simp [reason, hgone, hforced] at hreason hstored
    exact absurd (hstored.symm.trans hreason) (by simp)
  · intro hu
    refine ⟨hg'.once, fun q r hr => ?_, fun hret => absurd hret (by simp [MatchConductor.goto])⟩
    rcases List.mem_append.mp hr with hr | hr
    · exact h.reasons q r hr
    · obtain ⟨-, rfl⟩ : q = p ∧ r = g.conductor.finishReason := by simpa using hr
      rw [hstored]
      by_cases hgone : g.gone = true
      · simp [reason, hgone]
      · have hforced : g.forced ≠ true := fun hforced => by
          have hdead := (hu rfl hforced).2 i left place (by simpa using hgone) p player
          exact absurd (live.symm.trans hdead) (by simp)
        simp [reason, hgone, hforced]

/-- A step of the thread keeps the game in order exactly if it is not one that a
`ForceFinish` spoils. -/
theorem Inv.ends_thread {g : Game} {m : MatchConductor} {e : MatchConductor.Effect} (hg : g.Inv) (h : g.Ends)
    (hm : g.conductor.ThreadStep g.closed g.alive m e) (fine : ∀ f, e ≠ .fault f) :
    (g.after m).Ends ↔ g.Unforced .thread := by
  have hg' := hg.thread hm fine
  have hquiet {pc : GamePc} (place : g.conductor.pc = pc) (hpc : pc.callsFinish = false) (hret : m.pc ≠ .returned)
      (hsent : ∀ p r, (p, .finish r) ∈ m.sent → (p, .finish r) ∈ g.conductor.sent) : (g.after m).Ends := by
    subst place
    rw [after_eq hpc] at hg' ⊢
    exact h.goes hg hg' hsent (.inr rfl) hret
  cases hm with
  | fails => exact absurd rfl (fine _)
  | stopped place stop => exact hg.ends_stopped h place stop
  | begins place stop =>
    refine iff_of_true (hquiet place rfl nofun fun _ _ hr => hr) fun _ hforced =>
      ⟨fun _ hf => ?_, fun i left hn => ?_⟩
    · exact absurd ((hforced.symm.trans (hg.asked hf)).trans stop) (by simp)
    · exact absurd (place.symm.trans hn) (by simp)
  | greets i p place player live =>
    refine iff_of_true (hquiet place rfl nofun fun q r hr => ?_) (unforced_of_place place nofun nofun)
    simpa [MatchConductor.send, MatchConductor.goto] using hr
  | leaves place =>
    have hhere := hg.here
    rw [place] at hhere
    exact iff_of_true (h.goes hg hg' (fun _ _ hr => hr) (.inl hhere.1) nofun) (unforced_of_place place nofun nofun)
  | wakes place =>
    have hhere := hg.here
    rw [place] at hhere
    exact iff_of_true (h.goes hg hg' (fun _ _ hr => hr) (.inl hhere.1) nofun) (unforced_of_place place nofun nofun)
  | notifies i left p place player live => exact hg.ends_notifies h place player live
  | cannotNotify i left p place player gone =>
    refine iff_of_true (hquiet place rfl nofun fun _ _ hr => hr) fun _ _ =>
      ⟨fun hh => ?_, fun i' left' hn _ q hq => ?_⟩
    · exact absurd (place.symm.trans hh) (by simp)
    · obtain ⟨rfl, rfl⟩ := GamePc.notify.inj (place.symm.trans hn)
      obtain rfl : p = q := by simpa [player] using hq
      exact gone
  | setsStop left place =>
    refine iff_of_true ?_ (unforced_of_place place nofun nofun)
    cases left
    · exact hquiet place rfl nofun fun _ _ hr => hr
    · have hhere := hg.here
      rw [place] at hhere
      rw [after_eq (by rw [place]; rfl)] at hg' ⊢
      exact ⟨hg'.once, h.reasons, fun _ p hp hc => hhere.2.1 p (by simpa using hp) hc⟩
  | welcomed _ place | misses _ _ place | finished _ _ place | skips _ _ _ place | meets _ _ _ place
  | keeps _ _ place | moves _ _ _ place | locks _ _ _ place | pushes _ _ _ place | clears _ place =>
    exact iff_of_true (hquiet place rfl nofun fun _ _ hr => hr) (unforced_of_place place nofun nofun)

theorem Inv.ends_step {g g' : Game} {a : Action} (hg : g.Inv) (h : g.Ends) (hstep : g.step a = some g') :
    g'.Ends ↔ g.Unforced a := by
  have hg' := hg.step hstep
  have hconnected := (step_moves hstep).connected
  cases step_moves hstep with
  | thread m e hm fine => exact hg.ends_thread h hm fine
  | forceFinish =>
    refine iff_of_true ⟨hg'.once, fun p r hr => ?_, h.notified⟩ nofun
    by_cases hf : g.finishes = 0
    · exact absurd hr (hg.not_mem_sent hf p r)
    · simpa [reason, hf] using h.reasons p r hr
  | setClosed | socketGone | connect =>
    exact iff_of_true ⟨hg'.once, h.reasons, fun hret p hp hc => h.notified hret p hp (hconnected p hp hc)⟩ nofun

theorem Ends.start (players : List ConnId) (closed alive : ConnId → Bool) : (start players closed alive).Ends :=
  ⟨Nat.zero_le 1, nofun, nofun⟩

/-- A game of any players, with any of them gone from the start, ends as it
should in all of a run exactly if the steps of the run are unforced. -/
theorem ends_iff {players : List ConnId} (h : players.Nodup) (closed alive : ConnId → Bool)
    (as : List Action) :
    Transition.Always step Ends (start players closed alive) as ↔
      Transition.Guarded step Unforced (start players closed alive) as :=
  Transition.always_iff_guarded (fun _ _ _ => Inv.step) (fun _ _ _ => Inv.ends_step) (Inv.start h closed alive)
    (Ends.start players closed alive) as

/-- The players may leave at any point of a game that nobody forces to finish. -/
theorem unforced_of_unasked {g : Game} {as : List Action} (h : g.forced = false) (has : .forceFinish ∉ as) :
    Transition.Guarded step Unforced g as := by
  induction as generalizing g with
  | nil => trivial
  | cons a as ih =>
    intro g' hstep
    obtain ⟨ha, has⟩ := List.ne_and_not_mem_of_not_mem_cons has
    have hkept : g'.forced = g.forced := by
      cases step_moves hstep with
      | forceFinish => exact absurd rfl ha
      | thread | setClosed | socketGone | connect => rfl
    exact ⟨fun _ hf => absurd (h.symm.trans hf) (by simp), ih (hkept.trans h) has⟩

/-- One of two players leaves before it is welcomed. -/
theorem ends_iff_leaver :
    Transition.Always step Ends (start [3, 4] (fun _ => false) (fun _ => true))
      (.thread :: .thread :: .socketGone 4 :: List.replicate 12 .thread) :=
  (ends_iff (by decide) _ _ _).mpr (unforced_of_unasked rfl (by decide))

/-- A game forced to finish before its first round sends nothing; one forced
while it sleeps says that it finished normally. -/
theorem forceFinish_unsaid :
    ¬ Transition.Always step Ends (start [3] (fun _ => false) (fun _ => true)) [.forceFinish, .thread] ∧
    ¬ Transition.Always step Ends (start [3] (fun _ => false) (fun _ => true))
      [.thread, .thread, .thread, .forceFinish, .thread, .thread, .thread] := by
  constructor
  · intro h
    have hend := h.of_run rfl
    exact absurd (hend.notified rfl 3 (by decide) ⟨rfl, rfl⟩) (by decide)
  · intro h
    have hend := h.of_run rfl
    exact absurd (hend.reasons 3 .normal (by decide)) (by decide)

end Game

end PokerEngine
