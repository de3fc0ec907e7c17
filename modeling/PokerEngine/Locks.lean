/-
The server does not deadlock on its own locks: in every state of every run, the
threads that wait for the holder of a mutex, or for a thread they join, wait in
no cycle.

A thread's place says which mutexes it holds and which it asks for. The mutexes
agree with that (`LocksOk`), and there is an order on what a thread can wait for
that every place respects: `ServerManager`'s mutex, then the joins of `End`,
then the connections and the games' list, the closure handler and the join of a
finished game, the lobby, the buffer.
-/
import PokerEngine.Embedding
import PokerEngine.LockOrder
import PokerEngine.Transition

namespace PokerEngine

/-! ## What a place holds and asks for -/

def CallbackPc.held : CallbackPc → List Mutex
  | .register => [.connections]
  | .push => [.lobby]
  | .find => [.connections]
  | .setClosed => [.connections]
  | .erase => [.connections]
  | .lockHandler => [.connections]
  | .notify _ => [.connections, .closureHandler]
  | .scan observer _ => [.connections, .closureHandler, Server.stashMutex observer]
  | .unlockClose => [.connections]
  | _ => []

def CallbackPc.asked : CallbackPc → List Mutex
  | .lockRegister => [.connections]
  | .lockPush => [.lobby]
  | .lockClose => [.connections]
  | .lockHandler => [.closureHandler]
  | .notify (observer :: _) => [Server.stashMutex observer]
  | _ => []

def MakerPc.held : MakerPc → List Mutex
  | .empty => [.lobby]
  | .wait => [.lobby]
  | .unlockWait => [.lobby]
  | .fill => [.lobby, .buffer]
  | .assemble => [.buffer]
  | _ => []

def MakerPc.asked : MakerPc → List Mutex
  | .lockEmpty => [.lobby]
  | .lockWait => [.lobby]
  | .wake => [.lobby]
  | .lockBoth => [.lobby, .buffer]
  | .lockBuffer => [.buffer]
  | _ => []

def CreatePc.held : CreatePc → List Mutex
  | .cleanUp _ _ => [.conductors]
  | .unlockCleanUp _ => [.conductors]
  | .register _ => [.conductors]
  | _ => []

def CreatePc.asked : CreatePc → List Mutex
  | .lockCleanUp _ => [.conductors]
  | .lockRegister _ => [.conductors]
  | _ => []

def EndPc.held : EndPc → List Mutex
  | .force _ => [.conductors]
  | .unlock => [.conductors]
  | _ => []

def EndPc.asked : EndPc → List Mutex
  | .lock => [.conductors]
  | _ => []

def MainPc.held : MainPc → List Mutex
  | .start _ => [.serverManager]
  | .ending _ => [.serverManager]
  | .makerJoin _ => [.serverManager]
  | .makerResetStop _ => [.serverManager]
  | .serverStop _ => [.serverManager]
  | .managerEnd _ => [.serverManager]
  | _ => []

def MainPc.asked : MainPc → List Mutex
  | .lockStart => [.serverManager]
  | .lockEnd => [.serverManager]
  | _ => []

def GamePc.held : GamePc → List Mutex
  | .push _ _ _ => [.lobby]
  | _ => []

def GamePc.asked : GamePc → List Mutex
  | .pushLock _ _ _ => [.lobby]
  | _ => []

/-- How high a mutex stands. Levels 1 and 3 are those of the joins. -/
def Mutex.level : Mutex → Nat
  | .serverManager => 0
  | .connections => 2
  | .conductors => 2
  | .closureHandler => 3
  | .lobby => 4
  | .buffer => 5

/-- A step's change to the mutexes is the change from a place's to the next
one's. -/
def LockOp.Turns (held held' : List Mutex) : LockOp → Prop
  | .keep => ∀ m, m ∈ held' ↔ m ∈ held
  | .acquire ms => .conductors ∉ ms ∧ ∀ m, m ∈ held' ↔ m ∈ held ∨ m ∈ ms
  | .release ms => .conductors ∉ ms ∧ (∀ m ∈ ms, m ∈ held) ∧ ∀ m, m ∈ held' ↔ m ∈ held ∧ m ∉ ms

namespace Server

def held (s : Server) : Thread → List Mutex
  | .main => s.main.held ++ s.manager.finish.held
  | .maker => s.maker.held ++ s.manager.create.held
  | .callback c => (s.callbacks c).held
  | .game g => (s.manager.conductors g).pc.held

def asked (s : Server) : Thread → List Mutex
  | .main => s.main.asked ++ s.manager.finish.asked
  | .maker => s.maker.asked ++ s.manager.create.asked
  | .callback c => (s.callbacks c).asked
  | .game g => (s.manager.conductors g).pc.asked

/-- The thread that the clean-up is about to join, if it has to wait for it. -/
def awaited (m : MatchConductorManager) : Option GameId :=
  match m.create with
  | .cleanUp _ (.moveThread r _) => (m.matchConductors[r]?.bind Slot.thread).filter fun g => !m.joined (some g)
  | .cleanUp _ (.joinTail _ j) => (m.matchConductors[j]?.bind Slot.thread).filter fun g => !m.joined (some g)
  | _ => none

/-- `t` joins `u`, which has not come to its end. -/
def Joins (s : Server) : Thread → Thread → Prop
  | .main, .maker => (∃ rest, s.main = .makerJoin rest) ∧ s.maker ≠ .unstarted ∧ s.maker ≠ .returned
  | .main, .callback c => (∃ rest, s.main = .serverStop rest) ∧ c ∈ s.clients ∧ (s.callbacks c).atRest = false
  | .maker, .game g => s.maker = .creating ∧ awaited s.manager = some g
  | _, _ => False

/-- `t` waits for `u`: for a mutex that `u` holds, or to join it. -/
def WaitsFor (s : Server) : Thread → Thread → Prop :=
  LockOrder.WaitsFor s.holder (fun t m => m ∈ s.asked t) s.Joins

/-! ## The mutexes agree with the places -/

/-- The mutexes record the holders that the places say, and the two callers of
the manager are in it only while they hold nothing else of it. -/
structure LocksOk (s : Server) : Prop where
  owned : LockOrder.Owned s.holder fun t m => m ∈ s.held t
  linked : s.Linked
  ending : (∀ rest, s.main ≠ .managerEnd rest) → s.manager.finish = .idle ∨ s.manager.finish = .done

theorem LocksOk.initial : initial.LocksOk where
  owned m t := by
    have hholder : Server.initial.holder m = none := by cases m <;> rfl
    have hheld : Server.initial.held t = [] := by cases t <;> rfl
    simp [hholder, hheld]
  linked := .initial
  ending _ := .inl rfl

theorem foldl_update (o : Option Thread) (locks : Mutex → Option Thread) (ms : List Mutex) (m : Mutex) :
    ms.foldl (fun locks m => Function.update locks m o) locks m = if m ∈ ms then o else locks m := by
  induction ms generalizing locks with
  | nil => simp
  | cons m' ms ih =>
    rw [List.foldl_cons, ih]
    by_cases hm : m = m' <;> simp [hm]

theorem holder_of_ne {s : Server} {m : Mutex} (h : m ≠ .conductors) : s.holder m = s.locks m := by
  cases m <;> first | rfl | exact absurd rfl h

/-- A step of `t` that changes the mutexes as its places say. -/
theorem owned_turn {s s' : Server} {t : Thread} {op : LockOp}
    (h : LockOrder.Owned s.holder fun t m => m ∈ s.held t) (hfree : op.Free s.locks)
    (hlocks : s'.locks = op.apply t s.locks)
    (hconductors : s'.manager.conductorsMutex = s.manager.conductorsMutex)
    (hturns : op.Turns (s.held t) (s'.held t)) (hother : ∀ u, u ≠ t → s'.held u = s.held u) :
    LockOrder.Owned s'.holder fun t m => m ∈ s'.held t := by
  have hlast : s'.holder .conductors = s.holder .conductors := by simp only [holder, hconductors]
  have hholder : ∀ m, s'.locks m = s.locks m → s'.holder m = s.holder m := by
    intro m hm
    by_cases hc : m = .conductors
    · rw [hc, hlast]
    · rw [holder_of_ne hc, holder_of_ne hc, hm]
  have hrest : ∀ u, u ≠ t → ∀ m, m ∈ s'.held u ↔ m ∈ s.held u := fun u hu m => by rw [hother u hu]
  cases op with
  | keep => exact h.keep (fun m => hholder m (by rw [hlocks]; rfl)) hturns hrest
  | acquire ms =>
    obtain ⟨hno, hturns⟩ := hturns
    have hne : ∀ m ∈ ms, m ≠ .conductors := fun m hm hc => hno (hc ▸ hm)
    refine h.acquire (fun m hm => ?_) (fun m hm => ?_) (fun m hm => ?_) hturns hrest
    · rw [holder_of_ne (hne m hm)]
      exact hfree m hm
    · rw [holder_of_ne (hne m hm), hlocks]
      exact (foldl_update _ _ _ _).trans (if_pos hm)
    · exact hholder m (by rw [hlocks]; exact (foldl_update _ _ _ _).trans (if_neg hm))
  | release ms =>
    obtain ⟨hno, hheld, hturns⟩ := hturns
    have hne : ∀ m ∈ ms, m ≠ .conductors := fun m hm hc => hno (hc ▸ hm)
    refine h.release hheld (fun m hm => ?_) (fun m hm => ?_) hturns hrest
    · rw [holder_of_ne (hne m hm), hlocks]
      exact (foldl_update _ _ _ _).trans (if_pos hm)
    · exact hholder m (by rw [hlocks]; exact (foldl_update _ _ _ _).trans (if_neg hm))

theorem CallbackWalk.turns {stop : Bool} {pc pc' : CallbackPc} {op : LockOp} (h : CallbackWalk stop pc op pc') :
    op.Turns pc.held pc'.held := by
  cases h with
  | openTestStop => cases stop <;> simp [LockOp.Turns, CallbackPc.held]
  | closeTestStop => cases stop <;> simp [LockOp.Turns, CallbackPc.held]
  | notify observer rest =>
    cases observer <;> simp [LockOp.Turns, CallbackPc.held, stashMutex] <;> grind
  | scan observer rest =>
    cases observer <;> simp [LockOp.Turns, CallbackPc.held, stashMutex] <;> grind
  | _ => simp [LockOp.Turns, CallbackPc.held] <;> grind

theorem MakerWalk.turns {stop : Bool} {pc pc' : MakerPc} {op : LockOp} (h : MakerWalk stop pc op pc') :
    op.Turns pc.held pc'.held := by
  cases h with
  | testStop => cases stop <;> simp [LockOp.Turns, MakerPc.held]
  | empty isEmpty => cases isEmpty <;> simp [LockOp.Turns, MakerPc.held]
  | _ => simp [LockOp.Turns, MakerPc.held]

theorem MainWalk.turns {pc pc' : MainPc} {op : LockOp} (h : MainWalk pc op pc') : op.Turns pc.held pc'.held := by
  cases h <;> simp [LockOp.Turns, MainPc.held]

theorem LocksOk.halt {s : Server} (h : s.LocksOk) (f : Fault) : (s.halt f).LocksOk :=
  ⟨h.owned, ⟨h.linked.inv, h.linked.idle, h.linked.fresh⟩, h.ending⟩

theorem CallbackStep.locksOk {s s' : Server} {c : ConnId} (h : s.LocksOk) (hstep : CallbackStep s c s') :
    s'.LocksOk := by
  have hlinked := hstep.linked h.linked
  cases hstep with
  | move pc pc' op d place walk free data =>
    have hmain : d.main = s.main := by cases data <;> rfl
    have hmaker : d.maker = s.maker := by cases data <;> rfl
    have hmanager : d.manager = s.manager := by cases data <;> rfl
    refine ⟨owned_turn (t := .callback c) h.owned free rfl (by simp only [hmanager]) ?_ ?_, hlinked, ?_⟩
    · simpa [held, place] using walk.turns
    · intro t ht
      cases t with
      | main => simp only [held, hmain, hmanager]
      | maker => simp only [held, hmaker, hmanager]
      | game g => simp only [held, hmanager]
      | callback c' =>
        have hne : c' ≠ c := fun he => ht (he ▸ rfl)
        simp only [held, Function.update_of_ne hne]
    · simp only [hmain, hmanager]
      exact h.ending
  | notFound => exact h.halt _
  | scanFails => exact h.halt _

/-- The clean-up goes on under the mutex. -/
theorem eraseStep_lock {m m' : MatchConductorManager} {ps : List (Option ConnId)} {e : ErasePc}
    (hstep : m.eraseStep ps e = some (.ok m')) :
    m'.finish = m.finish ∧ m'.conductorsMutex = m.conductorsMutex ∧ m'.create.held = [.conductors] := by
  have hdelete : ∀ o, (m.delete o).finish = m.finish ∧ (m.delete o).conductorsMutex = m.conductorsMutex := by
    intro o
    cases o <;> exact ⟨rfl, rfl⟩
  cases MatchConductorManager.eraseStep_cases hstep with
  | moveConductor r i target => exact ⟨(hdelete target.conductor).1, (hdelete target.conductor).2, rfl⟩
  | deleteTail r j slot => exact ⟨(hdelete slot.conductor).1, (hdelete slot.conductor).2, rfl⟩
  | _ => exact ⟨rfl, rfl, rfl⟩

/-- What a step of `CreateMatchConductor` does to `conductors_mutex_`. -/
theorem createStep_lock {m m' : MatchConductorManager} (hstep : m.createStep = some (.ok m')) :
    m'.finish = m.finish ∧
      ((m'.conductorsMutex = m.conductorsMutex ∧ m'.create.held = m.create.held) ∨
        (m.conductorsMutex = none ∧ m'.conductorsMutex = some .creator ∧ m.create.held = [] ∧
          m'.create.held = [.conductors]) ∨
        (m'.conductorsMutex = none ∧ m.create.held = [.conductors] ∧ m'.create.held = [])) := by
  cases MatchConductorManager.createStep_cases hstep with
  | refuse ps hcreate => exact ⟨rfl, .inl ⟨rfl, by rw [hcreate]; rfl⟩⟩
  | accept ps hcreate => exact ⟨rfl, .inl ⟨rfl, by rw [hcreate]; rfl⟩⟩
  | lockCleanUp ps hcreate hfree => exact ⟨rfl, .inr (.inl ⟨hfree, rfl, by rw [hcreate]; rfl, rfl⟩)⟩
  | cleanUp ps e _ hcreate herase =>
    obtain ⟨hfinish, hmutex, hheld⟩ := eraseStep_lock herase
    exact ⟨hfinish, .inl ⟨hmutex, by rw [hheld, hcreate]; rfl⟩⟩
  | unlockCleanUp ps hcreate => exact ⟨rfl, .inr (.inr ⟨rfl, by rw [hcreate]; rfl, rfl⟩)⟩
  | construct ps c hcreate => exact ⟨rfl, .inl ⟨rfl, by rw [hcreate]; rfl⟩⟩
  | start g hcreate => exact ⟨rfl, .inl ⟨rfl, by rw [hcreate]; rfl⟩⟩
  | lockRegister g hcreate hfree => exact ⟨rfl, .inr (.inl ⟨hfree, rfl, by rw [hcreate]; rfl, rfl⟩)⟩
  | register g hcreate => exact ⟨rfl, .inr (.inr ⟨rfl, by rw [hcreate]; rfl, rfl⟩)⟩

/-- What a step of `End` does to `conductors_mutex_`. -/
theorem endStep_lock {m m' : MatchConductorManager} (hstep : m.endStep = some (.ok m')) :
    (∀ g, (m'.conductors g).pc = (m.conductors g).pc) ∧
      ((m'.conductorsMutex = m.conductorsMutex ∧ m'.finish.held = m.finish.held) ∨
        (m.conductorsMutex = none ∧ m'.conductorsMutex = some .ender ∧ m.finish.held = [] ∧
          m'.finish.held = [.conductors]) ∨
        (m'.conductorsMutex = none ∧ m.finish.held = [.conductors] ∧ m'.finish.held = [])) := by
  cases MatchConductorManager.endStep_cases hstep with
  | setFlag place => exact ⟨fun _ => rfl, .inl ⟨rfl, by rw [place]; rfl⟩⟩
  | lock place hfree => exact ⟨fun _ => rfl, .inr (.inl ⟨hfree, rfl, by rw [place]; rfl, rfl⟩)⟩
  | forced i place => exact ⟨fun _ => rfl, .inl ⟨rfl, by rw [place]; rfl⟩⟩
  | force i slot g place =>
    refine ⟨fun g' => ?_, .inl ⟨rfl, by rw [place]; rfl⟩⟩
    by_cases hg : g' = g
    · simp [MatchConductorManager.setConductor, MatchConductor.forceFinish, hg]
    · simp [MatchConductorManager.setConductor, hg]
  | unlock place => exact ⟨fun _ => rfl, .inr (.inr ⟨rfl, by rw [place]; rfl, rfl⟩)⟩

/-- The places of the games' threads hold the same after a step of
`CreateMatchConductor`. -/
theorem created_held {m m' : MatchConductorManager} (h : m.Inv) (hcreated : MatchConductorManager.Created m m')
    (g : GameId) : (m'.conductors g).pc.held = (m.conductors g).pc.held := by
  cases hcreated with
  | moved hc => rw [hc]
  | refused _ hc => rw [hc]
  | deleted g' _ _ hc => rw [hc, (MatchConductorManager.delete_advances m _ g).2]
  | made c hconstruct hc =>
    by_cases hg : g = m.made
    · obtain ⟨-, rfl⟩ := MatchConductorManager.construct_ok hconstruct
      rw [hc, hg, Function.update_self, h.unmade m.made (Nat.le_refl _)]
      rfl
    · rw [hc, Function.update_of_ne hg]
  | started g' hstart hc =>
    by_cases hg : g = g'
    · rw [hc, hg, Function.update_self, h.starting g' hstart]
      rfl
    · rw [hc, Function.update_of_ne hg]

/-- A step of `t` inside the manager that takes, keeps or gives back
`conductors_mutex_`; `outside` is what `t` holds besides. -/
theorem owned_conductors {s s' : Server} {t : Thread} {caller : Holder} {outside inside inside' : List Mutex}
    (h : LockOrder.Owned s.holder fun t m => m ∈ s.held t) (hlocks : s'.locks = s.locks)
    (hcaller : s'.manager.conductorsMutex = some caller → s'.holder .conductors = some t)
    (houtside : .conductors ∉ outside) (hheld : s.held t = outside ++ inside)
    (hheld' : s'.held t = outside ++ inside') (hother : ∀ u, u ≠ t → s'.held u = s.held u)
    (hlock : (s'.manager.conductorsMutex = s.manager.conductorsMutex ∧ inside' = inside) ∨
      (s.manager.conductorsMutex = none ∧ s'.manager.conductorsMutex = some caller ∧ inside = [] ∧
        inside' = [.conductors]) ∨
      (s'.manager.conductorsMutex = none ∧ inside = [.conductors] ∧ inside' = [])) :
    LockOrder.Owned s'.holder fun t m => m ∈ s'.held t := by
  have hrest : ∀ u, u ≠ t → ∀ m, m ∈ s'.held u ↔ m ∈ s.held u := fun u hu m => by rw [hother u hu]
  have hkept : ∀ m, m ≠ .conductors → s'.holder m = s.holder m := fun m hm => by
    rw [holder_of_ne hm, holder_of_ne hm, hlocks]
  have hnone : ∀ s : Server, s.manager.conductorsMutex = none → s.holder .conductors = none := fun s hs => by
    simp [holder, hs]
  rcases hlock with ⟨hmutex, rfl⟩ | ⟨hfree, htaken, rfl, rfl⟩ | ⟨hgiven, rfl, rfl⟩
  · refine h.keep (fun m => ?_) (fun m => by rw [hheld, hheld']) hrest
    by_cases hm : m = .conductors
    · simp only [hm, holder, hmutex]
    · exact hkept m hm
  · have hself : ∀ m, m ∈ s'.held t ↔ m ∈ s.held t ∨ m ∈ [Mutex.conductors] := fun m => by
      simp [hheld, hheld']
    refine h.acquire ?_ ?_ (fun m hm => hkept m (by simpa using hm)) hself hrest
    · simpa using hnone s hfree
    · simpa using hcaller htaken
  · have hself : ∀ m, m ∈ s'.held t ↔ m ∈ s.held t ∧ m ∉ [Mutex.conductors] := fun m => by
      rw [hheld, hheld']
      by_cases hm : m = .conductors
      · simp [hm, houtside]
      · simp [hm]
    refine h.release ?_ ?_ (fun m hm => hkept m (by simpa using hm)) hself hrest
    · simp [hheld]
    · simpa using hnone s' hgiven

theorem MakerStep.locksOk {s s' : Server} (h : s.LocksOk) (hstep : MakerStep s s') : s'.LocksOk := by
  have hlinked := hstep.linked h.linked
  cases hstep with
  | move pc pc' op d place walk free data =>
    have hcreate : s.manager.create = .idle := h.linked.idle (by rw [place]; cases walk <;> simp)
    have hmain : d.main = s.main := by cases data <;> rfl
    have hcallbacks : d.callbacks = s.callbacks := by cases data <;> rfl
    have hmutex : d.manager.conductorsMutex = s.manager.conductorsMutex := by cases data <;> rfl
    have hfinish : d.manager.finish = s.manager.finish := by cases data <;> rfl
    have hconductors : d.manager.conductors = s.manager.conductors := by cases data <;> rfl
    have hheld : d.manager.create.held = [] := by cases data <;> simp [hcreate, CreatePc.held]
    refine ⟨owned_turn (t := .maker) h.owned free rfl hmutex ?_ ?_, hlinked, ?_⟩
    · simp only [held, place, hcreate, hheld, List.append_nil]
      simpa only [CreatePc.held, List.append_nil] using walk.turns
    · intro t ht
      cases t with
      | main => simp only [held, hmain, hfinish]
      | maker => exact absurd rfl ht
      | game g => simp only [held, hconductors]
      | callback c => simp only [held, hcallbacks]
    · simp only [hmain, hfinish]
      exact h.ending
  | create manager place created =>
    obtain ⟨hfinish, hlock⟩ := createStep_lock created
    have hcreated := (MatchConductorManager.createStep_spec h.linked.inv created).2
    have hheld : s.held .maker = s.maker.held ++ s.manager.create.held := rfl
    have hheld' : ({ s with manager } : Server).held .maker = s.maker.held ++ manager.create.held := rfl
    refine ⟨owned_conductors h.owned rfl (fun hc => ?_) (by simp [place, MakerPc.held]) hheld hheld' ?_ hlock,
      hlinked, ?_⟩
    · simp only at hc
      simp [holder, hc]
    · intro t ht
      cases t with
      | main => simp only [held, hfinish]
      | maker => exact absurd rfl ht
      | game g => exact created_held h.linked.inv hcreated g
      | callback c => rfl
    · simp only [hfinish]
      exact h.ending
  | created place idle =>
    refine ⟨h.owned.keep (t := .maker) (fun m => by cases m <;> rfl) (fun m => ?_) (fun u hu m => ?_), hlinked,
      h.ending⟩
    · simp [held, makerTo, place, MakerPc.held]
    · cases u with
      | maker => exact absurd rfl hu
      | _ => rfl
  | assembleFails => exact h.halt _
  | createFails => exact h.halt _

/-- A game's step takes the lobby's mutex, gives it back, or neither. -/
theorem conductorStep_turns {s : Server} {closed alive : ConnId → Bool} {c c' : MatchConductor}
    {e : MatchConductor.Effect} {op : LockOp} {lobby : Lobby} (hstep : c.step closed alive = some (c', e))
    (data : GameData s e op lobby) : op.Turns c.pc.held c'.pc.held := by
  cases MatchConductor.step_cases hstep with
  | locks i left p place => cases data; simp [LockOp.Turns, place, MatchConductor.goto, GamePc.held]
  | pushes i left p place => cases data; simp [LockOp.Turns, place, MatchConductor.goto, GamePc.held]
  | fails => cases data
  | setsStop left place => cases data; cases left <;> simp [LockOp.Turns, place, GamePc.held]
  | stopped place | begins place | welcomed _ place | greets _ _ place | misses _ _ place | leaves place | wakes place
  | finished _ _ place | skips _ _ _ place | meets _ _ _ place | notifies _ _ _ place | cannotNotify _ _ _ place
  | keeps _ _ place | moves _ _ _ place | clears _ place =>
    cases data
    simp [LockOp.Turns, place, MatchConductor.goto, MatchConductor.send, GamePc.held]

theorem GameStep.locksOk {s s' : Server} {g : GameId} (h : s.LocksOk) (hstep : GameStep s g s') :
    s'.LocksOk := by
  have hlinked := hstep.linked h.linked
  cases hstep with
  | move c e op lobby stepped live free data =>
    refine ⟨owned_turn (t := .game g) h.owned free rfl rfl ?_ ?_, hlinked, h.ending⟩
    · simpa [held, MatchConductorManager.setConductor] using conductorStep_turns stepped data
    · intro t ht
      cases t with
      | game g' =>
        have hne : g' ≠ g := fun he => ht (he ▸ rfl)
        simp [held, MatchConductorManager.setConductor, hne]
      | _ => rfl
  | fails => exact h.halt _

theorem endPc_quiet {finish : EndPc} (h : finish = .idle ∨ finish = .done) : finish.held = [] := by
  rcases h with rfl | rfl <;> rfl

theorem MainStep.locksOk {s s' : Server} (h : s.LocksOk) (hstep : MainStep s s') : s'.LocksOk := by
  have hlinked := hstep.linked h.linked
  cases hstep with
  | move pc pc' op d place walk free data =>
    have hquiet : s.manager.finish.held = [] ∧ d.manager.finish.held = [] := by
      have houtside : (∀ rest, pc ≠ .managerEnd rest) → s.manager.finish.held = [] := fun hne =>
        endPc_quiet (h.ending (by rw [place]; exact hne))
      cases data with
      | managerEnd rest done => simp [done, EndPc.held]
      | endManager rest => exact ⟨houtside (by simp), rfl⟩
      | _ => exact ⟨houtside (by simp), houtside (by simp)⟩
    have hmaker : d.maker.held = s.maker.held := by
      cases data with
      | startMaker =>
        simp only
        split
        next hun => rw [hun]; rfl
        next => rfl
      | _ => rfl
    have hcallbacks : d.callbacks = s.callbacks := by cases data <;> rfl
    have hmutex : d.manager.conductorsMutex = s.manager.conductorsMutex := by cases data <;> rfl
    have hcreate : d.manager.create = s.manager.create := by cases data <;> rfl
    have hconductors : d.manager.conductors = s.manager.conductors := by cases data <;> rfl
    refine ⟨owned_turn (t := .main) h.owned free rfl hmutex ?_ ?_, hlinked, ?_⟩
    · simp only [held, place, hquiet, List.append_nil]
      exact walk.turns
    · intro t ht
      cases t with
      | main => exact absurd rfl ht
      | maker => simp only [held, hmaker, hcreate]
      | game g => simp only [held, hconductors]
      | callback c => simp only [held, hcallbacks]
    · intro hne
      have hsame : (∀ rest, pc ≠ .managerEnd rest) → s.manager.finish = .idle ∨ s.manager.finish = .done :=
        fun hpc => h.ending (by rw [place]; exact hpc)
      cases data with
      | managerEnd rest done => exact .inr done
      | endManager rest => cases walk; exact absurd rfl (hne rest)
      | _ => exact hsame (by simp)
  | finish manager rest place finished =>
    obtain ⟨hpcs, hlock⟩ := endStep_lock finished
    have hcreate := (MatchConductorManager.endStep_ok finished).2.1
    have hheld : s.held .main = s.main.held ++ s.manager.finish.held := rfl
    have hheld' : ({ s with manager } : Server).held .main = s.main.held ++ manager.finish.held := rfl
    refine ⟨owned_conductors h.owned rfl (fun hc => ?_) (by simp [place, MainPc.held]) hheld hheld' ?_ hlock,
      hlinked, fun hne => absurd place (hne rest)⟩
    · simp only at hc
      simp [holder, hc]
    · intro t ht
      cases t with
      | main => exact absurd rfl ht
      | maker => simp only [held, hcreate]
      | game g => simp only [held, hpcs]
      | callback c => rfl
  | fails => exact h.halt _

/-- A step that starts a callback: the thread held nothing, and holds
nothing. -/
theorem LocksOk.callbackTo {s s' : Server} (h : s.LocksOk) (hlinked : s'.Linked) {c : ConnId} {pc : CallbackPc}
    (hcallbacks : s'.callbacks = Function.update s.callbacks c pc) (hbefore : (s.callbacks c).held = [])
    (hafter : pc.held = []) (hlocks : s'.locks = s.locks) (hmanager : s'.manager = s.manager)
    (hmaker : s'.maker = s.maker) (hmain : s'.main = s.main) : s'.LocksOk := by
  have hheld : ∀ t, s'.held t = s.held t := by
    intro t
    cases t with
    | main => simp only [held, hmain, hmanager]
    | maker => simp only [held, hmaker, hmanager]
    | game g => simp only [held, hmanager]
    | callback c' =>
      by_cases hc : c' = c
      · simp [held, hcallbacks, hc, hbefore, hafter]
      · simp [held, hcallbacks, hc]
  refine ⟨fun m t => ?_, hlinked, by rw [hmain, hmanager]; exact h.ending⟩
  have hholder : s'.holder m = s.holder m := by cases m <;> simp only [holder, hlocks, hmanager]
  rw [hholder, h.owned m t]
  simp only [hheld]

theorem LocksOk.step {s s' : Server} {a : Action} (h : s.LocksOk) (hstep : s.step a = some s') : s'.LocksOk := by
  have hlinked := h.linked.step hstep
  cases (step_cases hstep).2 with
  | connect c listening fresh =>
    exact h.callbackTo hlinked rfl (by rw [h.linked.fresh c fresh]; rfl) rfl rfl rfl rfl rfl
  | disconnect c listening opened => exact h.callbackTo hlinked rfl (by rw [opened]; rfl) rfl rfl rfl rfl rfl
  | socketGone c => exact ⟨h.owned, hlinked, h.ending⟩
  | quit waiting =>
    refine ⟨fun m t => ?_, hlinked, fun _ => h.ending (by simp [waiting])⟩
    have hheld : (s.mainTo .lockEnd).held t = s.held t := by
      cases t with
      | main => simp [held, mainTo, waiting, MainPc.held]
      | _ => rfl
    have hholder : (s.mainTo .lockEnd).holder m = s.holder m := by cases m <;> rfl
    rw [hholder, h.owned m t]
    simp only [hheld]
  | main _ hs => exact hs.locksOk h
  | maker _ hs => exact hs.locksOk h
  | callback c _ hs => exact hs.locksOk h
  | game g _ hs => exact hs.locksOk h

/-! ## The order -/

/-- How high the things asked for stand: at the lowest of them, and at 6 when
nothing is asked for. -/
def rankOf (asked : List Mutex) : Nat := asked.foldr (fun m r => min m.level r) 6

theorem level_lt (m : Mutex) : m.level < 6 := by cases m <;> decide

theorem rankOf_le {asked : List Mutex} {m : Mutex} (hm : m ∈ asked) : rankOf asked ≤ m.level := by
  induction asked with
  | nil => simp at hm
  | cons m' asked ih =>
    rcases List.mem_cons.mp hm with rfl | hm
    · exact Nat.min_le_left _ _
    · exact Nat.le_trans (Nat.min_le_right _ _) (ih hm)

theorem rankOf_le_six (asked : List Mutex) : rankOf asked ≤ 6 := by
  induction asked with
  | nil => exact Nat.le_refl _
  | cons m asked ih => exact Nat.le_trans (Nat.min_le_right _ _) ih

/-- How high the joins of a place stand. -/
def joinRank (s : Server) : Thread → Nat
  | .main =>
    match s.main with
    | .makerJoin _ => 1
    | .serverStop _ => 1
    | _ => 6
  | .maker =>
    match s.manager.create with
    | .cleanUp _ (.moveThread _ _) => 3
    | .cleanUp _ (.joinTail _ _) => 3
    | _ => 6
  | _ => 6

def rank (s : Server) (t : Thread) : Nat := min (s.joinRank t) (rankOf (s.asked t))

theorem callbackPc_held_lt (pc : CallbackPc) {m : Mutex} (hm : m ∈ pc.held) :
    m.level < rankOf pc.asked := by
  cases pc with
  | notify rest =>
    simp only [CallbackPc.held, List.mem_cons, List.not_mem_nil, or_false] at hm
    obtain _ | ⟨observer, rest⟩ := rest
    · rcases hm with rfl | rfl <;> simp [rankOf, CallbackPc.asked, Mutex.level]
    · rcases hm with rfl | rfl <;> cases observer <;> simp [rankOf, CallbackPc.asked, stashMutex, Mutex.level]
  | scan observer rest =>
    simp only [CallbackPc.held, List.mem_cons, List.not_mem_nil, or_false] at hm
    rcases hm with rfl | rfl | rfl <;> cases observer <;> simp [rankOf, CallbackPc.asked, stashMutex, Mutex.level]
  | _ =>
    simp only [CallbackPc.held, List.mem_cons, List.not_mem_nil, or_false] at hm <;> subst hm <;> decide

theorem endPc_held {finish : EndPc} {m : Mutex} (hm : m ∈ finish.held) :
    m = .conductors ∧ finish.asked = [] ∧ finish ≠ .idle ∧ finish ≠ .done := by
  cases finish <;> simp_all [EndPc.held, EndPc.asked]

theorem createPc_held {create : CreatePc} {m : Mutex} (hm : m ∈ create.held) :
    m = .conductors ∧ create.asked = [] ∧ create ≠ .idle := by
  cases create <;> simp_all [CreatePc.held, CreatePc.asked]

theorem makerPc_held {maker : MakerPc} {m : Mutex} (hm : m ∈ maker.held) :
    m.level < 6 ∧ maker.asked = [] ∧ maker ≠ .creating := by
  cases maker <;> simp_all [MakerPc.held, MakerPc.asked, Mutex.level]
  rcases hm with rfl | rfl <;> decide

theorem mainPc_held {main : MainPc} {m : Mutex} (hm : m ∈ main.held) :
    m = .serverManager ∧ main.asked = [] := by
  cases main <;> simp_all [MainPc.held, MainPc.asked]

theorem endPc_asked_rank (finish : EndPc) : 2 ≤ rankOf finish.asked := by
  cases finish <;> simp [EndPc.asked, rankOf, Mutex.level]

theorem makerPc_asked_rank (maker : MakerPc) : 4 ≤ rankOf maker.asked := by
  cases maker <;> simp [MakerPc.asked, rankOf, Mutex.level]

theorem createPc_asked_rank (create : CreatePc) : 2 ≤ rankOf create.asked := by
  cases create <;> simp [CreatePc.asked, rankOf, Mutex.level]

theorem callbackPc_asked_rank (pc : CallbackPc) : 2 ≤ rankOf pc.asked := by
  cases pc with
  | notify rest =>
    obtain _ | ⟨observer, rest⟩ := rest
    · simp [CallbackPc.asked, rankOf]
    · cases observer <;> simp [CallbackPc.asked, rankOf, stashMutex, Mutex.level]
  | _ => simp [CallbackPc.asked, rankOf, Mutex.level]

theorem rankOf_append (l l' : List Mutex) : rankOf (l ++ l') = min (rankOf l) (rankOf l') := by
  induction l with
  | nil => exact (Nat.min_eq_right (rankOf_le_six l')).symm
  | cons m l ih =>
    have hcons : ∀ l, rankOf (m :: l) = min m.level (rankOf l) := fun _ => rfl
    rw [List.cons_append, hcons, hcons, ih, Nat.min_assoc]

/-- What a thread holds stands lower than anything it waits for. -/
theorem LocksOk.held_lt {s : Server} (h : s.LocksOk) {t : Thread} {m : Mutex} (hm : m ∈ s.held t) :
    m.level < s.rank t := by
  cases t with
  | callback c => exact Nat.lt_min.mpr ⟨level_lt m, callbackPc_held_lt _ hm⟩
  | game g =>
    simp only [held] at hm
    cases hpc : (s.manager.conductors g).pc <;> simp_all [GamePc.held]
    simp [rank, joinRank, asked, hpc, GamePc.asked, rankOf, Mutex.level]
  | main =>
    rcases List.mem_append.mp hm with hm | hm
    · obtain ⟨rfl, hasked⟩ := mainPc_held hm
      have hfinish := endPc_asked_rank s.manager.finish
      have hjoin : 1 ≤ s.joinRank .main := by
        simp only [joinRank]
        split <;> decide
      simp only [rank, asked, hasked, List.nil_append, Mutex.level]
      omega
    · obtain ⟨rfl, hasked, hidle, hdone⟩ := endPc_held hm
      have hmain : ∃ rest, s.main = .managerEnd rest := by
        by_contra hne
        exact (h.ending fun rest he => hne ⟨rest, he⟩).elim hidle hdone
      obtain ⟨rest, hmain⟩ := hmain
      simp [rank, joinRank, asked, hmain, hasked, MainPc.asked, rankOf, Mutex.level]
  | maker =>
    rcases List.mem_append.mp hm with hm | hm
    · obtain ⟨hlt, hasked, hne⟩ := makerPc_held hm
      have hidle := h.linked.idle hne
      simpa [rank, joinRank, asked, hasked, hidle, CreatePc.asked, rankOf] using hlt
    · obtain ⟨rfl, hasked, hidle⟩ := createPc_held hm
      have hmaker : s.maker = .creating := by
        by_contra hne
        exact hidle (h.linked.idle hne)
      simp only [rank, asked, hmaker, hasked, MakerPc.asked, rankOf, joinRank]
      split <;> decide

/-- A thread joins only threads that wait for something higher. -/
theorem joins_lt {s : Server} {t u : Thread} (hj : s.Joins t u) : s.rank t < s.rank u := by
  have hmakerRank : 2 ≤ s.rank .maker := by
    have hmaker := makerPc_asked_rank s.maker
    have hcreate := createPc_asked_rank s.manager.create
    have hjoin : 3 ≤ s.joinRank .maker := by
      simp only [joinRank]
      split <;> decide
    simp only [rank, asked, rankOf_append]
    omega
  have hmainRank : (∃ rest, s.main = .makerJoin rest ∨ s.main = .serverStop rest) → s.rank .main ≤ 1 := by
    rintro ⟨rest, hmain | hmain⟩ <;> exact Nat.le_trans (Nat.min_le_left _ _) (by simp [joinRank, hmain])
  cases t with
  | main =>
    cases u with
    | maker =>
      obtain ⟨⟨rest, hmain⟩, -⟩ := hj
      exact Nat.lt_of_le_of_lt (hmainRank ⟨rest, .inl hmain⟩) hmakerRank
    | callback c =>
      obtain ⟨⟨rest, hmain⟩, -⟩ := hj
      have hcallback : 2 ≤ s.rank (.callback c) :=
        Nat.le_min.mpr ⟨by simp [joinRank], callbackPc_asked_rank _⟩
      exact Nat.lt_of_le_of_lt (hmainRank ⟨rest, .inr hmain⟩) hcallback
    | main => exact hj.elim
    | game g => exact hj.elim
  | maker =>
    cases u with
    | game g =>
      obtain ⟨-, hawaited⟩ := hj
      have hjoin : s.joinRank .maker ≤ 3 := by
        unfold awaited at hawaited
        unfold joinRank
        split at hawaited
        · simp
        · simp
        · simp at hawaited
      have hgame : 4 ≤ s.rank (.game g) := by
        refine Nat.le_min.mpr ⟨by simp [joinRank], ?_⟩
        simp only [asked]
        cases (s.manager.conductors g).pc <;> simp [GamePc.asked, rankOf, Mutex.level]
      exact Nat.lt_of_le_of_lt (Nat.le_trans (Nat.min_le_left _ _) hjoin) hgame
    | main => exact hj.elim
    | maker => exact hj.elim
    | callback c => exact hj.elim
  | callback c => exact hj.elim
  | game g => exact hj.elim

/-- A thread ranks below every thread it waits for. -/
theorem LocksOk.rank_lt {s : Server} (h : s.LocksOk) (t u : Thread) (hw : s.WaitsFor t u) :
    s.rank t < s.rank u :=
  hw.rank_lt s.rank Mutex.level h.owned (fun _ _ hm => Nat.le_trans (Nat.min_le_right _ _) (rankOf_le hm))
    (fun _ _ hm => h.held_lt hm) fun _ _ hj => joins_lt hj

theorem locksOk_always (as : List Action) : Transition.Always step LocksOk initial as :=
  Transition.always_of_invariant (fun _ _ _ h hs => h.step hs) .initial as

/-- **No deadlock on the server's own locks**: in every state of every run, the
wait-for relation of the threads has no cycle. -/
theorem waitsFor_acyclic (as : List Action) :
    Transition.Always step (fun s => ∀ t, ¬ Relation.TransGen s.WaitsFor t t) initial as :=
  (locksOk_always as).mono fun _ h => LockOrder.no_cycle h.rank_lt

end Server

end PokerEngine
