/-
Three who wait get a game, within a number of the match maker's own steps that
depends only on how many games there are to clean up (`game_made_in_time`).

`matchLeft` counts them, up to the next group; a clean-up under way, and the one
in the call for that group, are in it.
-/
import PokerEngine.Exit

namespace PokerEngine

/-- The main thread is in `Start` or `Wait`. -/
def MainPc.serving : MainPc → Bool
  | .lockStart => true
  | .start _ => true
  | .waiting => true
  | _ => false

/-- The call has yet to make its game. -/
def CreatePc.making : CreatePc → Nat
  | .testFinish _ => 1
  | .lockCleanUp _ => 1
  | .cleanUp _ _ => 1
  | .unlockCleanUp _ => 1
  | .construct _ => 1
  | _ => 0

/-- The call has yet to put its pair in the vector. -/
def CreatePc.adding : CreatePc → Nat
  | .idle => 0
  | _ => 1

/-- The match maker's steps to the next group, with `b` players in the buffer and
enough in the lobby: from its place to the filling of the buffer, then around the
loop for each player missing. -/
def MakerPc.toGroup (b : Nat) : MakerPc → Nat
  | .testStop => 11 + 11 * (gNumberOfPlayersInGame - b)
  | .lockEmpty => 10 + 11 * (gNumberOfPlayersInGame - b)
  | .empty => 9 + 11 * (gNumberOfPlayersInGame - b)
  | .lockWait => 8 + 11 * (gNumberOfPlayersInGame - b)
  | .wait => 7 + 11 * (gNumberOfPlayersInGame - b)
  | .wake => 6 + 11 * (gNumberOfPlayersInGame - b)
  | .unlockWait => 5 + 11 * (gNumberOfPlayersInGame - b)
  | .lockBoth => 4 + 11 * (gNumberOfPlayersInGame - b)
  | .fill => 3 + 11 * (gNumberOfPlayersInGame - b)
  | .lockBuffer => if b = gNumberOfPlayersInGame then 2 else 13 + 11 * (gNumberOfPlayersInGame - b)
  | .assemble => if b = gNumberOfPlayersInGame then 1 else 12 + 11 * (gNumberOfPlayersInGame - b)
  | .creating => 12 + 11 * (gNumberOfPlayersInGame - b)
  | .unstarted => 0
  | .returned => 0

namespace MatchConductorManager

/-- A step of the call is one nearer its end, also when the pair it adds will
have to be looked at by the next. -/
theorem createStep_adding {m m' : MatchConductorManager} (hinv : m.Inv) (hstep : m.createStep = some (.ok m')) :
    m'.create.stepsLeft m'.matchConductors.length + 5 * (m'.matchConductors.length + m'.create.adding) <
      m.create.stepsLeft m.matchConductors.length + 5 * (m.matchConductors.length + m.create.adding) := by
  have hlt := (createStep_callLeft hinv hstep).1
  cases createStep_cases hstep with
  | cleanUp ps e m' place erases =>
    obtain ⟨-, hle, -⟩ := eraseStep_stepsLeft place erases
    have hadding : m.create.adding = 1 := by rw [place]; rfl
    have hadding' : m'.create.adding = 1 := by cases eraseStep_cases erases <;> rfl
    omega
  | register g place =>
    simp only [place, CreatePc.stepsLeft, CreatePc.adding, List.length_append, List.length_singleton]
    omega
  | refuse ps place | accept ps place | unlockCleanUp ps place | lockRegister g place | start g place =>
    simp only [place, release, setConductor, CreatePc.adding] at hlt ⊢
    omega
  | lockCleanUp ps place =>
    simp only [place, CreatePc.adding] at hlt ⊢
    omega
  | construct ps c place =>
    simp only [place, setConductor, CreatePc.adding] at hlt ⊢
    omega

/-- Of a call that is not refused comes a game. -/
theorem createStep_made {m m' : MatchConductorManager} (hrequested : m.finishRequested = false)
    (hstep : m.createStep = some (.ok m')) :
    m'.finishRequested = false ∧ m'.made + m'.create.making = m.made + m.create.making ∧ m.made ≤ m'.made := by
  cases createStep_cases hstep with
  | refuse ps place requested => simp [hrequested] at requested
  | cleanUp ps e m' place erases =>
    rw [place]
    have hdelete : ∀ o, (m.delete o).finishRequested = m.finishRequested ∧ (m.delete o).made = m.made := fun o => by
      cases o <;> exact ⟨rfl, rfl⟩
    cases eraseStep_cases erases with
    | moveConductor r i target source =>
      exact ⟨(hdelete _).1.trans hrequested, congrArg (· + 1) (hdelete target.conductor).2,
        Nat.le_of_eq (hdelete target.conductor).2.symm⟩
    | deleteTail r j slot =>
      exact ⟨(hdelete _).1.trans hrequested, congrArg (· + 1) (hdelete slot.conductor).2,
        Nat.le_of_eq (hdelete slot.conductor).2.symm⟩
    | _ => exact ⟨hrequested, rfl, Nat.le_refl _⟩
  | construct ps c place =>
    rw [place]
    exact ⟨hrequested, rfl, Nat.le_succ _⟩
  | accept ps place | lockCleanUp ps place | unlockCleanUp ps place =>
    rw [place]
    exact ⟨hrequested, rfl, Nat.le_refl _⟩
  | start g place | lockRegister g place | register g place =>
    rw [place]
    exact ⟨hrequested, rfl, Nat.le_refl _⟩

end MatchConductorManager

namespace Server

/-- There are players enough for a game, in the lobby and in the buffer. -/
def Enough (s : Server) : Prop :=
  gNumberOfPlayersInGame ≤ s.lobby.data.length + s.matchMaker.intermediateBuffer.length

instance (s : Server) : Decidable s.Enough := inferInstanceAs (Decidable (_ ≤ _))

/-- None of those who wait has disconnected. -/
def NoneClosed (s : Server) : Prop :=
  (∀ w ∈ s.lobby.data, s.closed w.id = false) ∧ ∀ w ∈ s.matchMaker.intermediateBuffer, s.closed w.id = false

instance (s : Server) : Decidable s.NoneClosed := inferInstanceAs (Decidable (_ ∧ _))

/-- Before the program is told to end: the match maker runs, and of each group it
took a game was made, or is about to be. -/
structure Serving (s : Server) : Prop where
  untold : s.matchMaker.stop = false
  running : s.maker ≠ .returned
  unasked : s.manager.finishRequested = false
  idle : s.manager.finish = .idle
  accounted : s.manager.made + s.manager.create.making = s.matchMaker.assembled.length

theorem Serving.initial : initial.Serving := ⟨rfl, by change MakerPc.unstarted ≠ .returned; simp, rfl, rfl, rfl⟩

/-- What the threads of the connections and of the games leave alone; they can
add to the lobby, and take out those who are closed. -/
structure Aside (s s' : Server) : Prop where
  main : s'.main = s.main
  maker : s'.maker = s.maker
  requested : s'.manager.finishRequested = s.manager.finishRequested
  finish : s'.manager.finish = s.manager.finish
  create : s'.manager.create = s.manager.create
  made : s'.manager.made = s.manager.made
  slots : s'.manager.matchConductors = s.manager.matchConductors
  stop : s'.matchMaker.stop = s.matchMaker.stop
  assembled : s'.matchMaker.assembled = s.matchMaker.assembled
  buffer : s.NoneClosed → s'.matchMaker.intermediateBuffer = s.matchMaker.intermediateBuffer
  lobby : s.NoneClosed → s.lobby.data.length ≤ s'.lobby.data.length

theorem Aside.same {s s' : Server} (hmain : s'.main = s.main) (hmaker : s'.maker = s.maker)
    (hmanager : s'.manager = s.manager) (hmatchMaker : s'.matchMaker = s.matchMaker) (hlobby : s'.lobby = s.lobby) :
    Aside s s' := by
  refine ⟨hmain, hmaker, ?_, ?_, ?_, ?_, ?_, ?_, ?_, fun _ => ?_, fun _ => ?_⟩
  all_goals simp only [hmanager, hmatchMaker, hlobby, Nat.le_refl]

theorem filter_none_closed {closed : ConnId → Bool} {stash : List Waiting} (h : ∀ w ∈ stash, closed w.id = false) :
    stash.filter (fun w => !closed w.id) = stash :=
  List.filter_eq_self.mpr fun w hw => by simp [h w hw]

theorem length_push (l : Lobby) (value : ConnId) : l.data.length ≤ (l.push value).data.length := by
  simp [Lobby.push]

theorem CallbackStep.aside {s s' : Server} {c : ConnId} (hstep : CallbackStep s c s') : Aside s s' := by
  cases hstep with
  | move pc pc' op d place walk free data =>
    cases data with
    | push =>
      exact ⟨rfl, rfl, rfl, rfl, rfl, rfl, rfl, rfl, rfl, fun _ => rfl, fun _ => length_push s.lobby c⟩
    | scanLobby rest n lobby scanned =>
      refine ⟨rfl, rfl, rfl, rfl, rfl, rfl, rfl, rfl, rfl, fun _ => rfl, fun h => ?_⟩
      rw [Lobby.onConnectionClosed_ok scanned]
      exact Nat.le_of_eq (congrArg List.length (filter_none_closed h.1)).symm
    | scanBuffer rest n matchMaker scanned =>
      rw [MatchMaker.onConnectionClosed_ok scanned]
      exact ⟨rfl, rfl, rfl, rfl, rfl, rfl, rfl, rfl, rfl, fun h => filter_none_closed h.2, fun _ => Nat.le_refl _⟩
    | _ => exact .same rfl rfl rfl rfl rfl
  | _ => exact .same rfl rfl rfl rfl rfl

theorem GameStep.aside {s s' : Server} {g : GameId} (hstep : GameStep s g s') : Aside s s' := by
  cases hstep with
  | move c e op lobby stepped live free data =>
    refine ⟨rfl, rfl, rfl, rfl, rfl, rfl, rfl, rfl, rfl, fun _ => rfl, fun _ => ?_⟩
    cases data with
    | push value => exact length_push s.lobby value
    | _ => exact Nat.le_refl _
  | fails => exact .same rfl rfl rfl rfl rfl

theorem Serving.same {s s' : Server} (h : s.Serving) (hmaker : s'.maker = s.maker)
    (hmanager : s'.manager = s.manager) (hmatchMaker : s'.matchMaker = s.matchMaker) : s'.Serving := by
  refine ⟨?_, hmaker ▸ h.running, ?_, ?_, ?_⟩
  · exact hmatchMaker ▸ h.untold
  · exact hmanager ▸ h.unasked
  · exact hmanager ▸ h.idle
  · rw [hmanager, hmatchMaker]
    exact h.accounted

theorem Serving.aside {s s' : Server} (h : s.Serving) (ha : Aside s s') : s'.Serving := by
  refine ⟨ha.stop.trans h.untold, ha.maker ▸ h.running, ha.requested.trans h.unasked, ha.finish.trans h.idle, ?_⟩
  rw [ha.made, ha.create, ha.assembled]
  exact h.accounted

theorem MakerStep.serving {s s' : Server} (hl : s.Linked) (h : s.Serving) (hstep : MakerStep s s') : s'.Serving := by
  cases hstep with
  | move pc pc' op d place walk free data =>
    have hrunning : pc' ≠ .returned := by
      rw [h.untold] at walk
      cases walk with
      | empty isEmpty => cases isEmpty <;> simp
      | _ => simp
    cases data with
    | quiet => exact ⟨h.untold, hrunning, h.unasked, h.idle, h.accounted⟩
    | fill =>
      refine ⟨(fill_stop s.lobby s.matchMaker).trans h.untold, hrunning, h.unasked, h.idle, ?_⟩
      have hassembled : (MatchMaker.fill s.lobby s.matchMaker).2.assembled = s.matchMaker.assembled := by
        unfold MatchMaker.fill
        split
        · rfl
        · split <;> rfl
      rw [hassembled]
      exact h.accounted
    | assemble players matchMaker full taken =>
      have hidle : s.manager.create = .idle := hl.idle (by simp [place])
      rw [MatchMaker.assembleGame_of_full full] at taken
      obtain ⟨rfl, rfl⟩ := Prod.mk.inj (Except.ok.inj taken)
      refine ⟨h.untold, hrunning, h.unasked, h.idle, ?_⟩
      have haccounted := h.accounted
      rw [hidle] at haccounted
      rw [List.length_append, ← haccounted]
      rfl
  | create manager place created =>
    obtain ⟨hrequested, hmade, -⟩ := MatchConductorManager.createStep_made h.unasked created
    exact ⟨h.untold, h.running, hrequested, (createStep_lock created).1.trans h.idle, hmade.trans h.accounted⟩
  | created place idle => exact ⟨h.untold, by simp [makerTo], h.unasked, h.idle, h.accounted⟩
  | assembleFails => exact h.same rfl rfl rfl
  | createFails => exact h.same rfl rfl rfl

theorem MainStep.serving {s s' : Server} (h : s.main.serving = true → s.Serving) (hstep : MainStep s s')
    (hserving : s'.main.serving = true) : s'.Serving := by
  cases hstep with
  | move pc pc' op d place walk free data =>
    rw [place] at h
    cases walk with
    | lockStart => cases data; exact (h rfl).same rfl rfl rfl
    | unlockStart => cases data; exact (h rfl).same rfl rfl rfl
    | start observer rest =>
      have hs := h rfl
      cases data with
      | startManager => exact hs.same rfl rfl rfl
      | startServer => exact hs.same rfl rfl rfl
      | startMaker =>
        refine ⟨hs.untold, ?_, hs.unasked, hs.idle, hs.accounted⟩
        show (if s.maker = .unstarted then MakerPc.testStop else s.maker) ≠ .returned
        split
        · simp
        · exact hs.running
    | _ => simp [MainPc.serving] at hserving
  | finish manager rest place => simp [place, MainPc.serving] at hserving
  | fails => exact (h hserving).same rfl rfl rfl

/-- The match maker's steps left to the next group. -/
def matchLeft (s : Server) : Nat :=
  s.maker.toGroup s.matchMaker.intermediateBuffer.length + s.manager.create.stepsLeft s.manager.matchConductors.length +
    5 * (s.manager.matchConductors.length + s.manager.create.adding)

/-- The walk of the match maker, the filling and the making of a group apart. -/
theorem MakerWalk.toGroup {pc pc' : MakerPc} {op : LockOp} {b : Nat} (h : MakerWalk false pc op pc')
    (hfill : pc ≠ .fill) (hcreating : pc' ≠ .creating) (hfull : pc = .assemble → b ≠ gNumberOfPlayersInGame) :
    pc'.toGroup b < pc.toGroup b := by
  have hsize : gNumberOfPlayersInGame = 3 := rfl
  cases h with
  | empty isEmpty => cases isEmpty <;> simp [MakerPc.toGroup]
  | fill => exact absurd rfl hfill
  | assemble => exact absurd rfl hcreating
  | lockBuffer =>
    simp only [MakerPc.toGroup]
    split <;> omega
  | tooFew =>
    have hne := hfull rfl
    simp only [MakerPc.toGroup, if_neg hne]
    omega
  | _ => simp [MakerPc.toGroup]

theorem makerStep_full {s s' : Server} (hstep : s.makerStep = some s') (place : s.maker = .assemble)
    (full : s.matchMaker.intermediateBuffer.length = gNumberOfPlayersInGame) : s'.maker = .creating := by
  simp only [makerStep, place, full, if_true, MatchMaker.assembleGame_of_full full, Option.some.injEq] at hstep
  exact hstep ▸ rfl

/-- Filling the buffer, with enough players, brings the next group nearer. -/
theorem fill_toGroup {l : Lobby} {m : MatchMaker} (hb : m.intermediateBuffer.length ≤ gNumberOfPlayersInGame)
    (henough : gNumberOfPlayersInGame ≤ l.data.length + m.intermediateBuffer.length) :
    (MatchMaker.fill l m).2.assembled = m.assembled ∧
      (MatchMaker.fill l m).1.data.length + (MatchMaker.fill l m).2.intermediateBuffer.length =
        l.data.length + m.intermediateBuffer.length ∧
      MakerPc.lockBuffer.toGroup (MatchMaker.fill l m).2.intermediateBuffer.length <
        MakerPc.fill.toGroup m.intermediateBuffer.length := by
  have hsize : gNumberOfPlayersInGame = 3 := rfl
  unfold MatchMaker.fill
  split
  next hempty =>
    rw [hempty, List.length_nil] at henough
    refine ⟨rfl, rfl, ?_⟩
    simp only [MakerPc.toGroup]
    split <;> omega
  next front rest hdata =>
    split
    next hfull => simp [MakerPc.toGroup, hfull]
    next hfree =>
      refine ⟨rfl, ?_, ?_⟩
      · simp only [hdata, List.length_append, List.length_cons, List.length_nil]
        omega
      · simp only [MakerPc.toGroup, List.length_append, List.length_singleton]
        split <;> omega

/-- What a step of the match maker does, before the group is made: it comes
nearer to it, or makes it, and then has the call's steps left. -/
theorem makerStep_matches {s s' : Server} (h : s.Sound) (hs : s.Serving) (henough : s.Enough)
    (hstep : s.makerStep = some s') :
    (s'.matchMaker.assembled.length = s.matchMaker.assembled.length ∧ s'.Enough ∧ s'.matchLeft < s.matchLeft) ∨
      (s'.matchMaker.assembled.length = s.matchMaker.assembled.length + 1 ∧ s'.manager.create.making = 1 ∧
        s'.manager.create.stepsLeft s'.manager.matchConductors.length < s.matchLeft + 8) := by
  have hl := h.locks.linked
  cases makerStep_cases hstep with
  | assembleFails f fails => exact absurd fails (MatchMaker.assembleGame_ne_error h.buffer)
  | createFails f fails => exact absurd fails (MatchConductorManager.createStep_ne_error hl.inv h.seated)
  | created place idle =>
    refine .inl ⟨rfl, henough, ?_⟩
    simp only [matchLeft, makerTo, place, MakerPc.toGroup]
    omega
  | create manager place created =>
    have hlt := MatchConductorManager.createStep_adding hl.inv created
    refine .inl ⟨rfl, henough, ?_⟩
    simp only [matchLeft]
    omega
  | move pc pc' op d place walk free data =>
    rw [hs.untold] at walk
    cases data with
    | quiet _ _ hfill hcreating =>
      have hfull : pc = .assemble → s.matchMaker.intermediateBuffer.length ≠ gNumberOfPlayersInGame := fun hpc full =>
        hcreating (makerStep_full hstep (place.trans hpc) full)
      have hwalk := walk.toGroup hfill hcreating hfull
      refine .inl ⟨rfl, henough, ?_⟩
      simp only [matchLeft, place]
      omega
    | fill =>
      obtain ⟨hassembled, hwaiting, hlt⟩ := fill_toGroup h.buffer henough
      refine .inl ⟨congrArg List.length hassembled, ?_, ?_⟩
      · simp only [Enough, hwaiting]
        exact henough
      · simp only [matchLeft, place]
        omega
    | assemble players matchMaker full taken =>
      have hidle : s.manager.create = .idle := hl.idle (by simp [place])
      rw [MatchMaker.assembleGame_of_full full] at taken
      obtain ⟨rfl, rfl⟩ := Prod.mk.inj (Except.ok.inj taken)
      refine .inr ⟨by simp, rfl, ?_⟩
      simp only [matchLeft, place, hidle, full, MakerPc.toGroup, if_true, CreatePc.stepsLeft, CreatePc.adding]
      omega

/-! ## A game is made in time -/

/-- Of the first `k` groups games are made, and enough players wait for another,
or it is taken and its game about to be made. -/
structure Awaiting (k : Nat) (s : Server) : Prop where
  living : s.Living
  serving : s.Serving
  waiting : s.main = .waiting
  phase : (s.matchMaker.assembled.length = k ∧ s.Enough) ∨
    (s.matchMaker.assembled.length = k + 1 ∧ s.manager.create.making = 1)

/-- The match maker's steps left to the game of the next group. -/
def timeLeft (k : Nat) (s : Server) : Nat :=
  if s.matchMaker.assembled.length = k then s.matchLeft + 8
  else s.manager.create.stepsLeft s.manager.matchConductors.length

theorem Awaiting.aside {k : Nat} {s s' : Server} (h : Awaiting k s) (hliving : s'.Living) (ha : Aside s s')
    (hopen : s.NoneClosed) : Awaiting k s' ∧ timeLeft k s' = timeLeft k s := by
  have hbuffer := ha.buffer hopen
  refine ⟨⟨hliving, h.serving.aside ha, ha.main.trans h.waiting, ?_⟩, ?_⟩
  · rw [ha.assembled, ha.create]
    refine h.phase.imp_left fun ⟨hsame, henough⟩ => ⟨hsame, ?_⟩
    have hlobby := ha.lobby hopen
    unfold Enough at henough ⊢
    rw [hbuffer]
    omega
  · simp only [timeLeft, matchLeft, ha.assembled, ha.maker, ha.create, ha.slots, hbuffer]

/-- The call for the group that was taken goes on, or has made the game. -/
theorem Awaiting.create_step {k : Nat} {s s' : Server} (h : Awaiting k s) (hliving : s'.Living)
    (hassembled : s.matchMaker.assembled.length = k + 1) (hmaking : s.manager.create.making = 1)
    (hstep : s.makerStep = some s') :
    k < s'.manager.made ∨ Awaiting k s' ∧ timeLeft k s' + 1 ≤ timeLeft k s := by
  have hl := h.living.sound.locks.linked
  have hbusy : s.manager.create ≠ .idle := fun hidle => by simp [hidle, CreatePc.making] at hmaking
  have hcreating : s.maker = .creating := by
    by_contra hne
    exact hbusy (hl.idle hne)
  have haccounted := h.serving.accounted
  cases makerStep_cases hstep with
  | assembleFails f fails => exact absurd fails (MatchMaker.assembleGame_ne_error h.living.sound.buffer)
  | createFails f fails =>
    exact absurd fails (MatchConductorManager.createStep_ne_error hl.inv h.living.sound.seated)
  | created place idle => exact absurd idle hbusy
  | move pc pc' op d place walk =>
    rw [hcreating] at place
    subst place
    cases walk
  | create manager place created =>
    obtain ⟨hrequested, hmade, -⟩ := MatchConductorManager.createStep_made h.serving.unasked created
    have hlt := (MatchConductorManager.createStep_callLeft hl.inv created).1
    by_cases hgame : manager.create.making = 1
    · have hserving : Serving { s with manager } :=
        ⟨h.serving.untold, h.serving.running, hrequested, (createStep_lock created).1.trans h.serving.idle,
          hmade.trans haccounted⟩
      refine .inr ⟨⟨hliving, hserving, h.waiting, .inr ⟨hassembled, hgame⟩⟩, ?_⟩
      have hne : s.matchMaker.assembled.length ≠ k := by omega
      simp only [timeLeft, if_neg hne]
      omega
    · have hnone : manager.create.making = 0 := by
        cases hc : manager.create <;> simp_all [CreatePc.making]
      refine .inl ?_
      show k < manager.made
      omega

theorem Awaiting.maker_step {k : Nat} {s s' : Server} (h : Awaiting k s) (hliving : s'.Living)
    (hserving : s'.Serving) (hmain : s'.main = .waiting) (hstep : s.makerStep = some s') :
    k < s'.manager.made ∨ Awaiting k s' ∧ timeLeft k s' + 1 ≤ timeLeft k s := by
  rcases h.phase with ⟨hassembled, henough⟩ | ⟨hassembled, hmaking⟩
  · refine .inr ?_
    have hleft : timeLeft k s = s.matchLeft + 8 := if_pos hassembled
    rcases makerStep_matches h.living.sound h.serving henough hstep with ⟨hsame, henough', hlt⟩ | ⟨hmore, hmaking, hlt⟩
    · have hsame' : s'.matchMaker.assembled.length = k := hsame.trans hassembled
      refine ⟨⟨hliving, hserving, hmain, .inl ⟨hsame', henough'⟩⟩, ?_⟩
      rw [hleft, timeLeft, if_pos hsame']
      omega
    · have hmore' : s'.matchMaker.assembled.length = k + 1 := by omega
      refine ⟨⟨hliving, hserving, hmain, .inr ⟨hmore', hmaking⟩⟩, ?_⟩
      rw [hleft, timeLeft, if_neg (by omega)]
      omega
  · exact h.create_step hliving hassembled hmaking hstep

theorem Awaiting.step {k : Nat} {s s' : Server} {a : Action} (h : Awaiting k s) (hok : a ≠ .quit ∧ s.NoneClosed)
    (hstep : s.step a = some s') :
    k < s'.manager.made ∨ Awaiting k s' ∧ timeLeft k s' + (if a = .run .maker then 1 else 0) ≤ timeLeft k s := by
  have hliving := h.living.step hstep
  have haside (ha : Aside s s') (hne : a ≠ .run .maker) : k < s'.manager.made ∨
      Awaiting k s' ∧ timeLeft k s' + (if a = .run .maker then 1 else 0) ≤ timeLeft k s := by
    obtain ⟨hs', hleft⟩ := h.aside hliving ha hok.2
    exact .inr ⟨hs', by rw [if_neg hne, hleft, Nat.add_zero]⟩
  cases (step_cases hstep).2 with
  | connect => exact haside (.same rfl rfl rfl rfl rfl) (by simp)
  | disconnect => exact haside (.same rfl rfl rfl rfl rfl) (by simp)
  | socketGone => exact haside (.same rfl rfl rfl rfl rfl) (by simp)
  | quit => exact absurd rfl hok.1
  | callback c _ hs => exact haside hs.aside (by simp)
  | game g _ hs => exact haside hs.aside (by simp)
  | main _ hs =>
    have hnone : s.mainStep = none := by simp [mainStep, h.waiting]
    simp [Server.step, threadStep, hnone] at hstep
  | maker _ hs =>
    have hmaker : s.makerStep = some s' := by
      have hhalted := (step_cases hstep).1
      simpa [Server.step, threadStep, hhalted] using hstep
    rw [if_pos rfl]
    exact h.maker_step hliving (hs.serving h.living.sound.locks.linked h.serving) (hs.frame.1.trans h.waiting) hmaker

end Server

end PokerEngine
