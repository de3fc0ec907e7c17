/-
The lobby as a monitor (`lobby.h`): any number of threads call `Push`, `TryPop`,
`WaitPop` and `OnConnectionClosed`, while the match maker goes around the loop of
its `Run`. The sections under `mutex_` are single steps; `notify_one` comes after
the section of `Push`, and `wait_for` sleeps until it is notified, or its time is
over, or it wakes up for no reason.

The lobby is a queue (`taken_in_order`). `WaitPop` tests for a player before it
sleeps; the match maker tests in `Empty`, lets the mutex go, and sleeps without a
test, so it can sleep beside a player, until its second is over. That is the one
way in which a wake-up is lost (`noneLost_iff`).
-/
import Mathlib.Data.Fintype.Option
import PokerEngine.Fifo
import PokerEngine.MatchMaker
import PokerEngine.WakeUps

namespace PokerEngine

/-- `TryPop`, and the end of `WaitPop`; `none` is a null pointer. -/
def Lobby.tryPop (l : Lobby) : Option Waiting × Lobby :=
  match l.data with
  | [] => (none, l)
  | front :: rest => (some front, { l with data := rest })

/-- Where a thread is: outside, before a section, before the notification of
`Push`, or in the wait of `WaitPop` or of the match maker. -/
inductive LobbyPc
  | outside
  | push (value : ConnId)
  | notify
  | tryPop
  | waitPop
  | blocked
  | woken (timedOut : Bool)
  | close (id : ConnId)
  | empty
  | lockWait
  | makerBlocked
  | makerWoken
  | fill
  | assemble
  deriving DecidableEq, Repr

namespace LobbyPc

/-- The places in the match maker's `Run`. -/
def ofMaker : LobbyPc → Bool
  | .empty => true
  | .lockWait => true
  | .makerBlocked => true
  | .makerWoken => true
  | .fill => true
  | .assemble => true
  | _ => false

def sleeps : LobbyPc → Bool
  | .blocked => true
  | .makerBlocked => true
  | _ => false

/-- The thread is about to notify, or was woken and is about to look. -/
def owes : LobbyPc → Nat
  | .notify => 1
  | .woken _ => 1
  | .makerWoken => 1
  | .fill => 1
  | _ => 0

/-- Where a thread that sleeps wakes up. -/
def wake (timedOut : Bool) : LobbyPc → LobbyPc
  | .makerBlocked => .makerWoken
  | _ => .woken timedOut

end LobbyPc

/-- The calls from outside. -/
inductive LobbyCall
  | push (value : ConnId)
  | tryPop
  | waitPop
  | close (id : ConnId)
  deriving DecidableEq, Repr

def LobbyCall.place : LobbyCall → LobbyPc
  | .push value => .push value
  | .tryPop => .tryPop
  | .waitPop => .waitPop
  | .close id => .close id

/-- The lobby with its callers `θ`, and the match maker, which is `none`. -/
structure LobbyMonitor (θ : Type*) where
  lobby : Lobby
  matchMaker : MatchMaker
  closed : ConnId → Bool
  place : Option θ → LobbyPc
  /-- What was taken from the lobby, or answered by a pop, by whom (history). -/
  taken : List (Option θ × Option Waiting)

namespace LobbyMonitor

/-- A caller's call, the closing of a connection, a thread's next section, a
notification, which wakes a thread that sleeps, if there is one, or a wake-up
without one. -/
inductive Action (θ : Type*)
  | call (t : θ) (c : LobbyCall)
  | disconnect (c : ConnId)
  | run (t : Option θ)
  | notify (t : θ) (u : Option θ)
  | notifyNone (t : θ)
  | wake (t : Option θ) (timedOut : Bool)
  deriving DecidableEq, Repr

variable {θ : Type*}

def initial : LobbyMonitor θ :=
  { lobby := .construct, matchMaker := .construct, closed := fun _ => false,
    place := fun t => if t.isNone then .empty else .outside, taken := [] }

variable [DecidableEq θ]

def goto (s : LobbyMonitor θ) (t : Option θ) (pc : LobbyPc) : LobbyMonitor θ :=
  { s with place := Function.update s.place t pc }

@[simp] theorem goto_lobby (s : LobbyMonitor θ) (t : Option θ) (pc : LobbyPc) : (s.goto t pc).lobby = s.lobby := rfl

@[simp] theorem goto_taken (s : LobbyMonitor θ) (t : Option θ) (pc : LobbyPc) : (s.goto t pc).taken = s.taken := rfl

@[simp] theorem goto_self (s : LobbyMonitor θ) (t : Option θ) (pc : LobbyPc) : (s.goto t pc).place t = pc := by
  simp [goto]

theorem goto_of_ne {t u : Option θ} (s : LobbyMonitor θ) (pc : LobbyPc) (h : u ≠ t) :
    (s.goto t pc).place u = s.place u := by
  simp [goto, h]

/-- The pop of `TryPop`, and of `WaitPop` when it is done waiting. -/
def pop (s : LobbyMonitor θ) (t : Option θ) : LobbyMonitor θ :=
  { s with lobby := s.lobby.tryPop.2, taken := s.taken ++ [(t, s.lobby.tryPop.1)] }.goto t .outside

/-- The next section of a thread; `none` when it is outside, asleep or about to
notify, and where the scan aborts. -/
def runSection (s : LobbyMonitor θ) (t : Option θ) : Option (LobbyMonitor θ) :=
  match s.place t with
  | .push value => some ({ s with lobby := s.lobby.push value }.goto t .notify)
  | .tryPop => some (s.pop t)
  | .waitPop => some (if s.lobby.empty then s.goto t .blocked else s.pop t)
  | .woken timedOut => some (if s.lobby.empty && !timedOut then s.goto t .blocked else s.pop t)
  | .close id =>
    match s.lobby.onConnectionClosed s.closed id with
    | .error _ => none
    | .ok (_, lobby) => some ({ s with lobby }.goto t .outside)
  | .empty => some (s.goto t (if s.lobby.empty then .lockWait else .fill))
  | .lockWait => some (s.goto t .makerBlocked)
  | .makerWoken => some (s.goto t .fill)
  | .fill =>
    let front := if s.matchMaker.intermediateBuffer.length = gNumberOfPlayersInGame then none else s.lobby.data.head?
    let (lobby, matchMaker) := MatchMaker.fill s.lobby s.matchMaker
    some ({ s with lobby, matchMaker, taken := s.taken ++ [(t, front)] }.goto t .assemble)
  | .assemble =>
    if s.matchMaker.intermediateBuffer.length = gNumberOfPlayersInGame then
      match s.matchMaker.assembleGame with
      | .error _ => none
      | .ok (_, matchMaker) => some ({ s with matchMaker }.goto t .empty)
    else some (s.goto t .empty)
  | _ => none

def step [Fintype θ] (s : LobbyMonitor θ) : Action θ → Option (LobbyMonitor θ)
  | .call t c => if s.place (some t) = .outside then some (s.goto (some t) c.place) else none
  | .disconnect c => some { s with closed := Function.update s.closed c true }
  | .run t => s.runSection t
  | .notify t u =>
    if s.place (some t) = .notify ∧ (s.place u).sleeps then
      some ((s.goto u ((s.place u).wake false)).goto (some t) .outside)
    else none
  | .notifyNone t =>
    if s.place (some t) = .notify ∧ ∀ u, (s.place u).sleeps = false then some (s.goto (some t) .outside) else none
  | .wake t timedOut => if (s.place t).sleeps then some (s.goto t ((s.place t).wake timedOut)) else none

/-! ## The sections, case by case -/

/-- What a section of the thread `t` does: from a place, what the lobby and the
match maker are after it, what it takes, and where the thread goes. -/
inductive Section (s : LobbyMonitor θ) (t : Option θ) :
    LobbyPc → Lobby → MatchMaker → List (Option Waiting) → LobbyPc → Prop
  | push (value : ConnId) : Section s t (.push value) (s.lobby.push value) s.matchMaker [] .notify
  | pop (pc : LobbyPc) (hpc : pc = .tryPop ∨ pc = .waitPop ∨ ∃ timedOut, pc = .woken timedOut) :
    Section s t pc s.lobby.tryPop.2 s.matchMaker [s.lobby.tryPop.1] .outside
  | sleep (pc : LobbyPc) (hpc : pc = .waitPop ∨ pc = .woken false) (empty : s.lobby.data = []) :
    Section s t pc s.lobby s.matchMaker [] .blocked
  | close (id : ConnId) (n : Nat) (lobby : Lobby)
      (scanned : s.lobby.onConnectionClosed s.closed id = .ok (n, lobby)) :
    Section s t (.close id) lobby s.matchMaker [] .outside
  | testEmpty (pc' : LobbyPc) (hpc' : pc' = .lockWait ∨ pc' = .fill) :
    Section s t .empty s.lobby s.matchMaker [] pc'
  | bareWait : Section s t .lockWait s.lobby s.matchMaker [] .makerBlocked
  | makerWoken : Section s t .makerWoken s.lobby s.matchMaker [] .fill
  | fill (front : Option Waiting) (hfront : front =
      if s.matchMaker.intermediateBuffer.length = gNumberOfPlayersInGame then none else s.lobby.data.head?) :
    Section s t .fill (MatchMaker.fill s.lobby s.matchMaker).1 (MatchMaker.fill s.lobby s.matchMaker).2 [front]
      .assemble
  | assemble (players : List (Option Waiting)) (matchMaker : MatchMaker)
      (full : s.matchMaker.intermediateBuffer.length = gNumberOfPlayersInGame)
      (taken : s.matchMaker.assembleGame = .ok (players, matchMaker)) :
    Section s t .assemble s.lobby matchMaker [] .empty
  | tooFew (few : s.matchMaker.intermediateBuffer.length ≠ gNumberOfPlayersInGame) :
    Section s t .assemble s.lobby s.matchMaker [] .empty

theorem runSection_cases {s s' : LobbyMonitor θ} {t : Option θ} (hstep : s.runSection t = some s') :
    ∃ l m xs pc', Section s t (s.place t) l m xs pc' ∧
      s' = { s with lobby := l, matchMaker := m, taken := s.taken ++ xs.map (t, ·) }.goto t pc' := by
  have hempty : s.lobby.empty = true → s.lobby.data = [] := fun h => List.isEmpty_iff.mp h
  unfold runSection at hstep
  cases hpc : s.place t <;> simp only [hpc, reduceCtorEq, Option.some.injEq] at hstep
  case push value => exact ⟨_, _, _, _, .push value, by simp [← hstep]⟩
  case tryPop => exact ⟨_, _, _, _, .pop _ (.inl rfl), hstep.symm⟩
  case waitPop =>
    split at hstep
    next h => exact ⟨_, _, _, _, .sleep _ (.inl rfl) (hempty h), by simp [← hstep]⟩
    next => exact ⟨_, _, _, _, .pop _ (.inr (.inl rfl)), hstep.symm⟩
  case woken timedOut =>
    split at hstep
    next h =>
      simp only [Bool.and_eq_true, Bool.not_eq_true'] at h
      obtain ⟨h, rfl⟩ := h
      exact ⟨_, _, _, _, .sleep _ (.inr rfl) (hempty h), by simp [← hstep]⟩
    next => exact ⟨_, _, _, _, .pop _ (.inr (.inr ⟨timedOut, rfl⟩)), hstep.symm⟩
  case close id =>
    cases hscan : s.lobby.onConnectionClosed s.closed id with
    | error f => simp [hscan] at hstep
    | ok p =>
      simp only [hscan, Option.some.injEq] at hstep
      exact ⟨_, _, _, _, .close id p.1 p.2 hscan, by simp [← hstep]⟩
  case empty =>
    exact ⟨_, _, _, _, .testEmpty (if s.lobby.empty then .lockWait else .fill) (by split <;> simp), by simp [← hstep]⟩
  case lockWait => exact ⟨_, _, _, _, .bareWait, by simp [← hstep]⟩
  case makerWoken => exact ⟨_, _, _, _, .makerWoken, by simp [← hstep]⟩
  case fill => exact ⟨_, _, _, _, .fill _ rfl, hstep.symm⟩
  case assemble =>
    split at hstep
    next hfull =>
      cases htaken : s.matchMaker.assembleGame with
      | error f => simp [htaken] at hstep
      | ok p =>
        simp only [htaken, Option.some.injEq] at hstep
        exact ⟨_, _, _, _, .assemble p.1 p.2 hfull htaken, by simp [← hstep]⟩
    next hfew =>
      simp only [Option.some.injEq] at hstep
      exact ⟨_, _, _, _, .tooFew hfew, by simp [← hstep]⟩

/-- What a step can be. -/
inductive Step [Fintype θ] (s : LobbyMonitor θ) : Action θ → LobbyMonitor θ → Prop
  | call (t : θ) (c : LobbyCall) (place : s.place (some t) = .outside) : Step s (.call t c) (s.goto (some t) c.place)
  | disconnect (c : ConnId) : Step s (.disconnect c) { s with closed := Function.update s.closed c true }
  | run (t : Option θ) (l : Lobby) (m : MatchMaker) (xs : List (Option Waiting)) (pc' : LobbyPc)
      (does : Section s t (s.place t) l m xs pc') :
    Step s (.run t) ({ s with lobby := l, matchMaker := m, taken := s.taken ++ xs.map (t, ·) }.goto t pc')
  | notify (t : θ) (u : Option θ) (place : s.place (some t) = .notify) (sleeps : (s.place u).sleeps = true) :
    Step s (.notify t u) ((s.goto u ((s.place u).wake false)).goto (some t) .outside)
  | notifyNone (t : θ) (place : s.place (some t) = .notify) (awake : ∀ u, (s.place u).sleeps = false) :
    Step s (.notifyNone t) (s.goto (some t) .outside)
  | wake (t : Option θ) (timedOut : Bool) (sleeps : (s.place t).sleeps = true) :
    Step s (.wake t timedOut) (s.goto t ((s.place t).wake timedOut))

theorem step_cases [Fintype θ] {s s' : LobbyMonitor θ} {a : Action θ} (hstep : s.step a = some s') :
    Step s a s' := by
  cases a with
  | call t c =>
    simp only [step] at hstep
    split at hstep
    next place => exact Option.some.inj hstep ▸ .call t c place
    next => simp at hstep
  | disconnect c => exact Option.some.inj hstep ▸ .disconnect c
  | run t =>
    obtain ⟨l, m, xs, pc', hsection, rfl⟩ := runSection_cases hstep
    exact .run t l m xs pc' hsection
  | notify t u =>
    simp only [step] at hstep
    split at hstep
    next h => exact Option.some.inj hstep ▸ .notify t u h.1 h.2
    next => simp at hstep
  | notifyNone t =>
    simp only [step] at hstep
    split at hstep
    next h => exact Option.some.inj hstep ▸ .notifyNone t h.1 h.2
    next => simp at hstep
  | wake t timedOut =>
    simp only [step] at hstep
    split at hstep
    next h => exact Option.some.inj hstep ▸ .wake t timedOut h
    next => simp at hstep

/-! ## The places of the threads -/

/-- The match maker is in its loop and the callers are not, and there is room in
the buffer except where a game is about to be made of it. -/
structure Inv (s : LobbyMonitor θ) : Prop where
  maker : ∀ t, (s.place t).ofMaker = t.isNone
  buffer : s.matchMaker.intermediateBuffer.length ≤ gNumberOfPlayersInGame
  room : s.place none ≠ .assemble → s.matchMaker.intermediateBuffer.length < gNumberOfPlayersInGame

omit [DecidableEq θ] in
theorem Inv.initial : (initial : LobbyMonitor θ).Inv where
  maker t := by cases t <;> rfl
  buffer := Nat.zero_le _
  room _ := Nat.zero_lt_succ _

/-- A caller's step leaves the match maker alone. -/
theorem Inv.caller {s : LobbyMonitor θ} {t : θ} {l : Lobby} {taken : List (Option θ × Option Waiting)} {pc : LobbyPc}
    (h : s.Inv) (hpc : pc.ofMaker = false) : ({ s with lobby := l, taken }.goto (some t) pc).Inv := by
  refine ⟨fun u => ?_, h.buffer, fun hplace => h.room ?_⟩
  · by_cases hu : u = some t
    · rw [hu, goto_self, hpc]
      rfl
    · rw [goto_of_ne _ _ hu]
      exact h.maker u
  · rwa [goto_of_ne _ _ (by simp)] at hplace

/-- A step of the match maker in its loop. -/
theorem Inv.inLoop {s : LobbyMonitor θ} {l : Lobby} {m : MatchMaker} {taken : List (Option θ × Option Waiting)}
    {pc : LobbyPc} (h : s.Inv) (hpc : pc.ofMaker = true)
    (hbuffer : m.intermediateBuffer.length ≤ gNumberOfPlayersInGame)
    (hroom : pc ≠ .assemble → m.intermediateBuffer.length < gNumberOfPlayersInGame) :
    ({ s with lobby := l, matchMaker := m, taken }.goto none pc).Inv := by
  refine ⟨fun u => ?_, hbuffer, fun hplace => hroom ?_⟩
  · by_cases hu : u = none
    · rw [hu, goto_self, hpc]
      rfl
    · rw [goto_of_ne _ _ hu]
      exact h.maker u
  · rwa [goto_self] at hplace

theorem fill_length_le (l : Lobby) {m : MatchMaker} (h : m.intermediateBuffer.length ≤ gNumberOfPlayersInGame) :
    (MatchMaker.fill l m).2.intermediateBuffer.length ≤ gNumberOfPlayersInGame := by
  unfold MatchMaker.fill
  split
  · exact h
  · split
    · exact h
    · rw [List.length_append, List.length_singleton]
      omega

/-- Sections keep the match maker in its loop, with room in the buffer. -/
theorem Inv.section_step {s : LobbyMonitor θ} {t : Option θ} {l : Lobby} {m : MatchMaker} {xs : List (Option Waiting)}
    {taken : List (Option θ × Option Waiting)} {pc pc' : LobbyPc} (h : s.Inv) (hpc : s.place t = pc)
    (hsection : Section s t pc l m xs pc') :
    ({ s with lobby := l, matchMaker := m, taken }.goto t pc').Inv := by
  have hat : pc.ofMaker = t.isNone := hpc ▸ h.maker t
  have hsize : gNumberOfPlayersInGame = 3 := rfl
  cases t with
  | some t =>
    cases hsection with
    | push | pop | sleep | close => exact h.caller rfl
    | _ => simp [LobbyPc.ofMaker] at hat
  | none =>
    have hroom (hne : pc ≠ .assemble) : s.matchMaker.intermediateBuffer.length < gNumberOfPlayersInGame :=
      h.room (hpc ▸ hne)
    cases hsection with
    | push | close => simp [LobbyPc.ofMaker] at hat
    | pop pc hpop => rcases hpop with rfl | rfl | ⟨_, rfl⟩ <;> simp [LobbyPc.ofMaker] at hat
    | sleep pc hsleep => rcases hsleep with rfl | rfl <;> simp [LobbyPc.ofMaker] at hat
    | testEmpty pc' hpc' => exact h.inLoop (by rcases hpc' with rfl | rfl <;> rfl) h.buffer fun _ => hroom (by simp)
    | bareWait => exact h.inLoop rfl h.buffer fun _ => hroom (by simp)
    | makerWoken => exact h.inLoop rfl h.buffer fun _ => hroom (by simp)
    | fill => exact h.inLoop rfl (fill_length_le s.lobby h.buffer) fun hne => absurd rfl hne
    | assemble players matchMaker full taken =>
      rw [MatchMaker.assembleGame_of_full full] at taken
      obtain ⟨-, rfl⟩ := Prod.mk.inj (Except.ok.inj taken)
      exact h.inLoop rfl (Nat.zero_le _) fun _ => Nat.zero_lt_succ _
    | tooFew few =>
      have hbuffer := h.buffer
      exact h.inLoop rfl h.buffer fun _ => by omega

/-- A thread that sleeps wakes up where it went to sleep. -/
theorem Inv.wake {s : LobbyMonitor θ} {t : Option θ} (h : s.Inv) (timedOut : Bool)
    (hsleeps : (s.place t).sleeps = true) :
    (s.goto t ((s.place t).wake timedOut)).Inv := by
  have hat := h.maker t
  cases t with
  | some t =>
    cases hpc : s.place (some t) with
    | blocked => exact h.caller rfl
    | makerBlocked => simp [hpc, LobbyPc.ofMaker] at hat
    | _ => simp [hpc, LobbyPc.sleeps] at hsleeps
  | none =>
    cases hpc : s.place none with
    | blocked => simp [hpc, LobbyPc.ofMaker] at hat
    | makerBlocked => exact h.inLoop rfl h.buffer fun _ => h.room (by simp [hpc])
    | _ => simp [hpc, LobbyPc.sleeps] at hsleeps

theorem Inv.step [Fintype θ] {s s' : LobbyMonitor θ} {a : Action θ} (h : s.Inv) (hstep : s.step a = some s') :
    s'.Inv := by
  cases step_cases hstep with
  | call t c place => exact h.caller (by cases c <;> rfl)
  | disconnect c => exact ⟨h.maker, h.buffer, h.room⟩
  | run t l m xs pc' does => exact h.section_step rfl does
  | notify t u place sleeps => exact (h.wake false sleeps).caller rfl
  | notifyNone t place => exact h.caller rfl
  | wake t timedOut sleeps => exact h.wake timedOut sleeps

/-! ## Wake-ups -/

/-- No wake-up is lost: as long as somebody sleeps, for each player in the lobby
there is a thread about to notify, or woken and about to look. -/
def NoneLost [Fintype θ] (s : LobbyMonitor θ) : Prop :=
  WakeUps.NoneLost LobbyPc.sleeps LobbyPc.owes s.lobby.data.length s.place

/-- The threads about to notify, or woken and about to look. -/
def owing [Fintype θ] (s : LobbyMonitor θ) : Nat := Transition.tally Finset.univ LobbyPc.owes s.place

/-- The condition on a step: where the match maker goes to sleep, there are no
more players in the lobby than others are about to look at. -/
def SleepsInTime [Fintype θ] (s : LobbyMonitor θ) (a : Action θ) : Prop :=
  a = .run none → s.place none = .lockWait → s.lobby.data.length ≤ s.owing

theorem length_tryPop (l : Lobby) : l.tryPop.2.data.length = l.data.length - 1 := by
  unfold Lobby.tryPop
  split
  next h => simp [h]
  next front rest h => simp [h]

theorem length_fill (l : Lobby) {m : MatchMaker} (h : m.intermediateBuffer.length < gNumberOfPlayersInGame) :
    (MatchMaker.fill l m).1.data.length = l.data.length - 1 := by
  unfold MatchMaker.fill
  split
  next hl => simp [hl]
  next front rest hl =>
    rw [if_neg (Nat.ne_of_lt h)]
    simp [hl]

/-- A thread that is not about to go to sleep in the match maker's wait goes on,
and each player it leaves in the lobby is as well looked after as before. -/
theorem NoneLost.section_step [Fintype θ] {s : LobbyMonitor θ} {t : Option θ} {l : Lobby} {m : MatchMaker}
    {xs : List (Option Waiting)} {taken : List (Option θ × Option Waiting)} {pc pc' : LobbyPc} (hinv : s.Inv)
    (h : s.NoneLost) (hpc : s.place t = pc) (hwait : pc ≠ .lockWait) (hsection : Section s t pc l m xs pc') :
    ({ s with lobby := l, matchMaker := m, taken }.goto t pc').NoneLost := by
  -- who leaves one player less in the lobby may owe one look less
  have htakes {l : Lobby} {m : MatchMaker} {pc' : LobbyPc} (hl : l.data.length = s.lobby.data.length - 1)
      (hpc' : pc'.sleeps = false) (howes : pc.owes ≤ 1) :
      ({ s with lobby := l, matchMaker := m, taken }.goto t pc').NoneLost := by
    rcases Nat.eq_zero_or_pos s.lobby.data.length with hzero | hpos
    · exact .of_empty (by rw [goto, hl, hzero])
    · refine h.move hpc' ?_
      rw [hpc]
      show l.data.length + pc.owes ≤ _
      omega
  have hone : pc.owes ≤ 1 := by cases pc <;> simp [LobbyPc.owes]
  cases hsection with
  | push value =>
    refine h.move rfl ?_
    rw [hpc]
    simp [Lobby.push, LobbyPc.owes]
  | pop pc => exact htakes (length_tryPop s.lobby) rfl hone
  | sleep pc hsleep empty => exact .of_empty (by simp [goto, empty])
  | close id n lobby scanned =>
    refine h.move rfl ?_
    rw [hpc, Lobby.onConnectionClosed_ok scanned]
    exact List.length_filter_le _ _
  | testEmpty pc' hpc' =>
    refine h.move (by rcases hpc' with rfl | rfl <;> rfl) ?_
    rw [hpc]
    exact Nat.le_add_right _ _
  | bareWait => exact absurd rfl hwait
  | makerWoken =>
    refine h.move rfl ?_
    rw [hpc]
    exact Nat.le_refl _
  | fill front =>
    have hmaker : t = none := by
      have hat := hinv.maker t
      rw [hpc] at hat
      exact Option.isNone_iff_eq_none.mp hat.symm
    have hroom := hinv.room (by rw [← hmaker, hpc]; simp)
    exact htakes (length_fill s.lobby hroom) rfl hone
  | assemble | tooFew =>
    refine h.move rfl ?_
    rw [hpc]
    exact Nat.le_refl _

theorem NoneLost.wake [Fintype θ] {s : LobbyMonitor θ} {t : Option θ} (h : s.NoneLost) (timedOut : Bool)
    (hsleeps : (s.place t).sleeps = true) : (s.goto t ((s.place t).wake timedOut)).NoneLost := by
  refine h.move ?_ ?_
  · cases s.place t <;> rfl
  · have howes : (s.place t).owes = 0 := by cases hpc : s.place t <;> simp_all [LobbyPc.sleeps, LobbyPc.owes]
    rw [howes]
    exact Nat.le_add_right _ _

/-- A step loses no wake-up exactly when it meets the condition. -/
theorem NoneLost.step_iff [Fintype θ] {s s' : LobbyMonitor θ} {a : Action θ} (hinv : s.Inv) (h : s.NoneLost)
    (hstep : s.step a = some s') : s'.NoneLost ↔ s.SleepsInTime a := by
  cases step_cases hstep with
  | call t c place =>
    refine iff_of_true (h.move (by cases c <;> rfl) ?_) (by simp [SleepsInTime])
    rw [place]
    exact Nat.le_add_right _ _
  | disconnect c => exact iff_of_true h (by simp [SleepsInTime])
  | run t l m xs pc' does =>
    by_cases hwait : s.place t = .lockWait
    · have hmaker : t = none := by
        have hat := hinv.maker t
        rw [hwait] at hat
        exact Option.isNone_iff_eq_none.mp hat.symm
      subst hmaker
      rw [hwait] at does
      cases does with
      | pop _ hpop => rcases hpop with h | h | ⟨_, h⟩ <;> cases h
      | sleep _ hsleep => rcases hsleep with h | h <;> cases h
      | bareWait =>
        have hsleep : WakeUps.NoneLost LobbyPc.sleeps LobbyPc.owes s.lobby.data.length
            (Function.update s.place none .makerBlocked) ↔ s.lobby.data.length ≤ s.owing :=
          WakeUps.NoneLost.sleep_iff rfl (by rw [hwait]; rfl)
        simp only [SleepsInTime, hwait, forall_const]
        exact hsleep
    · refine iff_of_true (h.section_step hinv rfl hwait does) fun ha hplace => absurd ?_ hwait
      rw [Action.run.inj ha, hplace]
  | notify t u place sleeps =>
    have hne : some t ≠ u := by
      rintro rfl
      simp [place, LobbyPc.sleeps] at sleeps
    refine iff_of_true ?_ (by simp [SleepsInTime])
    refine h.notify hne rfl ?_ ?_ ?_
    · cases s.place u <;> rfl
    · cases hpc : s.place u <;> simp_all [LobbyPc.sleeps, LobbyPc.owes]
    · rw [place]
      cases hpc : s.place u <;> simp_all [LobbyPc.sleeps, LobbyPc.owes, LobbyPc.wake]
  | notifyNone t place awake => exact iff_of_true (WakeUps.NoneLost.notify_none awake rfl) (by simp [SleepsInTime])
  | wake t timedOut sleeps => exact iff_of_true (h.wake timedOut sleeps) (by simp [SleepsInTime])

instance [Fintype θ] (s : LobbyMonitor θ) : Decidable s.NoneLost := inferInstanceAs (Decidable (_ ∨ _))

/-- The match maker finds the lobby empty; a player comes, and nobody sleeps when
his coming is notified; then the match maker goes to sleep beside him. -/
example : (Transition.run step (initial : LobbyMonitor (Fin 1))
    [.run none, .call 0 (.push 7), .run (some 0), .notifyNone 0, .run none]).any (fun s => ¬ s.NoneLost) = true := by
  decide +kernel

/-- Then a player in the lobby need not wait for a time to be over: when somebody
sleeps, another thread can notify him, or take the player. -/
theorem NoneLost.somebody_looks [Fintype θ] {s : LobbyMonitor θ} (hinv : s.Inv) (h : s.NoneLost) {t : Option θ}
    (hsleeps : (s.place t).sleeps = true) (hdata : s.lobby.data ≠ []) :
    ∃ a, (∀ u timedOut, a ≠ .wake u timedOut) ∧ (s.step a).isSome = true := by
  obtain ⟨u, hu⟩ := h.exists_owing hsleeps (List.length_pos_iff.mpr hdata)
  cases hpc : s.place u with
  | notify =>
    cases u with
    | none =>
      have hat := hinv.maker none
      simp [hpc, LobbyPc.ofMaker] at hat
    | some u => exact ⟨.notify u t, by simp, by simp [LobbyMonitor.step, hpc, hsleeps]⟩
  | woken timedOut => exact ⟨.run u, by simp, by simp [LobbyMonitor.step, runSection, hpc]⟩
  | makerWoken => exact ⟨.run u, by simp, by simp [LobbyMonitor.step, runSection, hpc]⟩
  | fill => exact ⟨.run u, by simp, by simp [LobbyMonitor.step, runSection, hpc]⟩
  | _ => simp [hpc, LobbyPc.owes] at hu

/-! ## The queue -/

/-- What was taken, and what waits, are the players in the order they were pushed,
less the erased ones. -/
structure InOrder (s : LobbyMonitor θ) : Prop where
  fifo : Fifo s.lobby.pushed s.lobby.erased (s.taken.filterMap Prod.snd) [] s.lobby.data
  tickets : s.lobby.pushed.map Waiting.ticket = List.range s.lobby.pushed.length

omit [DecidableEq θ] in
theorem InOrder.initial : (initial : LobbyMonitor θ).InOrder := ⟨Fifo.nil, rfl⟩

theorem tryPop_fst (l : Lobby) : l.tryPop.1 = l.data.head? := by
  unfold Lobby.tryPop
  split <;> simp [*]

/-- The match maker takes as the pops do, when it has room. -/
theorem fill_fst (l : Lobby) {m : MatchMaker} (h : m.intermediateBuffer.length ≠ gNumberOfPlayersInGame) :
    (MatchMaker.fill l m).1 = l.tryPop.2 := by
  cases hl : l.data <;> simp [MatchMaker.fill, Lobby.tryPop, hl, h]

omit [DecidableEq θ] in
/-- The front is taken, if there is one. -/
theorem InOrder.take {s : LobbyMonitor θ} (h : s.InOrder) (t : Option θ) :
    Fifo s.lobby.tryPop.2.pushed s.lobby.tryPop.2.erased
      ((s.taken ++ [(t, s.lobby.tryPop.1)]).filterMap Prod.snd) [] s.lobby.tryPop.2.data := by
  have hfifo := h.fifo
  unfold Lobby.tryPop
  split
  next hdata =>
    rw [hdata] at hfifo
    simpa [hdata] using hfifo
  next front rest hdata =>
    rw [hdata] at hfifo
    simpa using hfifo.advance.take

theorem InOrder.step [Fintype θ] {s s' : LobbyMonitor θ} {a : Action θ} (h : s.InOrder) (hstep : s.step a = some s') :
    s'.InOrder := by
  cases step_cases hstep with
  | run t l m xs pc' does =>
    generalize s.place t = pc at does
    cases does with
    | push value =>
      refine ⟨?_, ?_⟩
      · simpa [Lobby.push] using h.fifo.push (fresh_of_tickets h.tickets value)
      · simp [Lobby.push, h.tickets, List.range_succ]
    | pop =>
      refine ⟨by simpa using h.take t, ?_⟩
      have htickets := h.tickets
      simp only [goto_lobby, Lobby.tryPop]
      split <;> exact htickets
    | close id n lobby scanned =>
      rw [Lobby.onConnectionClosed_ok scanned]
      exact ⟨by simpa using h.fifo.eraseBack fun w => s.closed w.id, h.tickets⟩
    | fill front hfront =>
      by_cases hfull : s.matchMaker.intermediateBuffer.length = gNumberOfPlayersInGame
      · have hsame : (MatchMaker.fill s.lobby s.matchMaker).1 = s.lobby := by
          unfold MatchMaker.fill
          split
          · rfl
          · rw [if_pos hfull]
        rw [if_pos hfull] at hfront
        rw [hsame, hfront]
        exact ⟨by simpa using h.fifo, h.tickets⟩
      · rw [if_neg hfull, ← tryPop_fst] at hfront
        rw [fill_fst s.lobby hfull, hfront]
        refine ⟨by simpa using h.take t, ?_⟩
        have htickets := h.tickets
        simp only [goto_lobby, Lobby.tryPop]
        split <;> exact htickets
    | _ => exact ⟨by simpa using h.fifo, h.tickets⟩
  | _ => exact ⟨h.fifo, h.tickets⟩

/-- The connection that a step pushes. -/
def pushes (s : LobbyMonitor θ) (a : Action θ) (_ : LobbyMonitor θ) : List ConnId :=
  match a with
  | .run t =>
    match s.place t with
    | .push value => [value]
    | _ => []
  | _ => []

/-- The entries that a step's scan takes out. -/
def erases (s : LobbyMonitor θ) (a : Action θ) (s' : LobbyMonitor θ) : List Waiting :=
  match a with
  | .run t =>
    match s.place t with
    | .close _ => s.lobby.data.filter (· ∉ s'.lobby.data)
    | _ => []
  | _ => []

theorem tryPop_history (l : Lobby) : l.tryPop.2.pushed = l.pushed ∧ l.tryPop.2.erased = l.erased := by
  unfold Lobby.tryPop
  split <;> exact ⟨rfl, rfl⟩

/-- The lobby's history is what the steps show. -/
theorem history_step [Fintype θ] {s s' : LobbyMonitor θ} {a : Action θ} (hstep : s.step a = some s') :
    s'.lobby.pushed.map Waiting.id = s.lobby.pushed.map Waiting.id ++ s.pushes a s' ∧
      s'.lobby.erased = s.lobby.erased ++ s.erases a s' := by
  cases step_cases hstep with
  | run t l m xs pc' does =>
    simp only [pushes, erases, goto_lobby]
    generalize s.place t = pc at does
    cases does with
    | push value => simp [Lobby.push]
    | pop pc hpc =>
      obtain ⟨hpushed, herased⟩ := tryPop_history s.lobby
      rw [hpushed, herased]
      rcases hpc with rfl | rfl | ⟨timedOut, rfl⟩ <;> simp
    | sleep pc hpc => rcases hpc with rfl | rfl <;> simp
    | close id n lobby scanned =>
      rw [Lobby.onConnectionClosed_ok scanned]
      refine ⟨by simp, congrArg (s.lobby.erased ++ ·) ?_⟩
      show _ = s.lobby.data.filter (· ∉ s.lobby.data.filter fun w => !s.closed w.id)
      rw [Fifo.filter_not_mem_filter]
      simp
    | fill front =>
      obtain ⟨hpushed, herased, -⟩ := MatchMaker.fill_history s.lobby s.matchMaker
      rw [hpushed, herased]
      simp
    | _ => simp
  | _ => simp [pushes, erases]

/-- **The lobby is a queue**, whoever calls it how: what the callers and the match
maker took from it so far, in this order, and then what it holds, are the pushed
connections in order with exactly the occurrences left out that scans removed. -/
theorem taken_in_order [Fintype θ] {as : List (Action θ)} {s : LobbyMonitor θ}
    (hrun : Transition.run step initial as = some s) :
    s.taken.filterMap Prod.snd ++ s.lobby.data =
      (numbered (Transition.observed step pushes initial as)).filter
        (fun w => w ∉ Transition.observed step erases initial as) := by
  have horder : s.InOrder :=
    (Transition.always_of_invariant (fun _ _ _ h hs => InOrder.step h hs) .initial as).of_run hrun
  have hpushed : s.lobby.pushed.map Waiting.id = Transition.observed step pushes initial as :=
    Transition.history_of_run (fun _ _ _ hs => (history_step hs).1) hrun
  have herased : s.lobby.erased = Transition.observed step erases initial as :=
    Transition.history_of_run (fun _ _ _ hs => (history_step hs).2) hrun
  rw [← hpushed, ← herased, numbered_map_id horder.tickets]
  simpa using horder.fifo.order

/-- Two are pushed, one is taken, and the other is gone. -/
theorem taken_in_order_two :
    ∃ s : LobbyMonitor (Fin 1), Transition.run step initial
        [.call 0 (.push 7), .run (some 0), .notifyNone 0, .call 0 (.push 8), .run (some 0), .notifyNone 0,
          .call 0 .tryPop, .run (some 0), .disconnect 8, .call 0 (.close 8), .run (some 0)] = some s ∧
      s.taken.filterMap Prod.snd ++ s.lobby.data = (numbered [7, 8]).filter (fun w => w ∉ [⟨8, 1⟩]) := by
  have hgoes : (Transition.run step (initial : LobbyMonitor (Fin 1))
      [.call 0 (.push 7), .run (some 0), .notifyNone 0, .call 0 (.push 8), .run (some 0), .notifyNone 0,
        .call 0 .tryPop, .run (some 0), .disconnect 8, .call 0 (.close 8), .run (some 0)]).isSome = true := by
    decide +kernel
  obtain ⟨s, hrun⟩ := Option.isSome_iff_exists.mp hgoes
  exact ⟨s, hrun, taken_in_order hrun⟩

end LobbyMonitor

end PokerEngine
