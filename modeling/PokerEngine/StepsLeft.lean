/-
How many steps a thread has left, from each place it can be at. A game ends in
any case, since `Finish` sets its flag; so do a callback, a call of
`CreateMatchConductor` and one of `End`. The match maker ends when it is told to
stop.

What a call brings about for others (a game that will run, a pair that will have
to be forced to finish and destroyed) is counted apart, as what it owes.
-/
import PokerEngine.Faults
import PokerEngine.Variant

namespace PokerEngine

/-! ## A game -/

/-- The steps left of the thread of a game with `n` players. -/
def GamePc.stepsLeft (n : Nat) (stop : Bool) : GamePc → Nat
  | .unstarted => 6 * n + 8
  | .head => if stop then 1 else 6 * n + 7
  | .welcome i => (n - i) + 5 * n + 6
  | .playerLeft => 5 * n + 5
  | .sleep => 5 * n + 5
  | .finish i _ => 5 * (n - i) + 4
  | .notify i _ => 5 * (n - i) + 3
  | .testStop i _ => 5 * (n - i) + 2
  | .pushLock i _ _ => 5 * (n - i) + 1
  | .push i _ _ => 5 * (n - i)
  | .clear _ => 3
  | .setStop _ => 2
  | .returned => 0

theorem GamePc.stepsLeft_mono {n n' : Nat} (h : n ≤ n') (stop : Bool) (pc : GamePc) :
    pc.stepsLeft n stop ≤ pc.stepsLeft n' stop := by
  cases pc <;> simp only [stepsLeft] <;> (try split) <;> omega

namespace MatchConductor

def stepsLeft (c : MatchConductor) : Nat := c.pc.stepsLeft c.players.length c.stop

theorem stepsLeft_step {closed alive : ConnId → Bool} {c c' : MatchConductor} {e : Effect} (h : c.Filled)
    (hstep : c.step closed alive = some (c', e)) (he : ∀ f, e ≠ .fault f) : c'.stepsLeft < c.stepsLeft := by
  have hlt {i : Nat} {p : ConnId} (hp : c.players[i]? = some (some p)) : i < c.players.length :=
    (List.getElem?_eq_some_iff.mp hp).1
  have hin {i : Nat} (hi : c.pc.inLoop = some i) : i < c.players.length := h.inLoop i hi
  cases step_cases hstep with
  | fails => exact absurd rfl (he _)
  | stopped place stop => simp [stepsLeft, place, stop, goto, GamePc.stepsLeft]
  | begins place stop =>
    simp only [stepsLeft, place, stop, goto, GamePc.stepsLeft]
    simp only [Bool.false_eq_true, if_false]
    omega
  | welcomed i place past =>
    simp only [stepsLeft, place, goto, GamePc.stepsLeft]
    omega
  | greets i p place player =>
    have hi := hlt player
    simp only [stepsLeft, place, goto, send, GamePc.stepsLeft]
    omega
  | misses i p place player =>
    simp only [stepsLeft, place, goto, GamePc.stepsLeft]
    omega
  | leaves place => simp [stepsLeft, place, GamePc.stepsLeft]
  | wakes place => simp [stepsLeft, place, goto, GamePc.stepsLeft]
  | finished i left place past =>
    simp only [stepsLeft, place, goto, GamePc.stepsLeft]
    omega
  | skips i left p place player =>
    have hi := hlt player
    simp only [stepsLeft, place, goto, GamePc.stepsLeft]
    omega
  | meets i left p place player =>
    simp only [stepsLeft, place, goto, GamePc.stepsLeft]
    omega
  | notifies i left p place player =>
    simp only [stepsLeft, place, goto, send, GamePc.stepsLeft]
    omega
  | cannotNotify i left p place player =>
    simp only [stepsLeft, place, goto, GamePc.stepsLeft]
    omega
  | keeps i left place =>
    have hi := hin (by rw [place]; rfl)
    simp only [stepsLeft, place, goto, GamePc.stepsLeft]
    omega
  | moves i left p place player =>
    simp only [stepsLeft, place, List.length_set, GamePc.stepsLeft]
    omega
  | locks i left p place =>
    simp only [stepsLeft, place, goto, GamePc.stepsLeft]
    omega
  | pushes i left p place =>
    have hi := hin (by rw [place]; rfl)
    simp only [stepsLeft, place, goto, GamePc.stepsLeft]
    omega
  | clears left place => simp [stepsLeft, place, GamePc.stepsLeft]
  | setsStop left place => cases left <;> simp [stepsLeft, place, GamePc.stepsLeft]

/-- A game told to stop has no more steps left than before. -/
theorem stepsLeft_forceFinish (c : MatchConductor) : c.forceFinish.stepsLeft ≤ c.stepsLeft := by
  unfold stepsLeft forceFinish
  cases c.pc with
  | head => cases c.stop <;> simp [GamePc.stepsLeft]
  | _ => exact Nat.le_refl _

theorem stepsLeft_destroy (c : MatchConductor) : c.destroy.stepsLeft ≤ c.stepsLeft :=
  GamePc.stepsLeft_mono (Nat.zero_le _) _ _

end MatchConductor

/-! ## The calls -/

/-- The steps left of the clean-up of a vector of `n` pairs. -/
def ErasePc.stepsLeft (n : Nat) : ErasePc → Nat
  | .find i => 5 * (n - i) + 1
  | .scan r i => 3 * (n - i) + 2 * (n - r) + 2
  | .moveConductor r i => 3 * (n - i) + 2 * (n - r) + 1
  | .moveThread r i => 3 * (n - i) + 2 * (n - r)
  | .joinTail _ j => 2 * (n - j) + 1
  | .deleteTail _ j => 2 * (n - j)

/-- The steps left of `CreateMatchConductor`, in the thread of the caller. -/
def CreatePc.stepsLeft (n : Nat) : CreatePc → Nat
  | .idle => 0
  | .testFinish _ => 5 * n + 8
  | .lockCleanUp _ => 5 * n + 7
  | .cleanUp _ e => e.stepsLeft n + 5
  | .unlockCleanUp _ => 5
  | .construct _ => 4
  | .start _ => 3
  | .lockRegister _ => 2
  | .register _ => 1

/-- What the call brings about: the steps of the game to be made, one of `End`
at its pair, and the two of the pair's destruction. -/
def CreatePc.owes : CreatePc → Nat
  | .idle => 0
  | .testFinish ps => 6 * ps.length + 8 + 3
  | .lockCleanUp ps => 6 * ps.length + 8 + 3
  | .cleanUp ps _ => 6 * ps.length + 8 + 3
  | .unlockCleanUp ps => 6 * ps.length + 8 + 3
  | .construct ps => 6 * ps.length + 8 + 3
  | .start _ => 3
  | .lockRegister _ => 3
  | .register _ => 3

/-- The steps left of `MatchConductorManager::End`. -/
def EndPc.stepsLeft (n : Nat) : EndPc → Nat
  | .idle => 0
  | .setFlag => n + 4
  | .lock => n + 3
  | .force i => (n - i) + 2
  | .unlock => 1
  | .done => 0

namespace MatchConductorManager

/-- A step of the clean-up lowers the steps left of the call, whatever becomes of
the vector. -/
theorem eraseStep_stepsLeft {m m' : MatchConductorManager} {ps : List (Option ConnId)} {e : ErasePc}
    (hcreate : m.create = .cleanUp ps e) (hstep : m.eraseStep ps e = some (.ok m')) :
    m'.create.stepsLeft m'.matchConductors.length < m.create.stepsLeft m.matchConductors.length ∧
      m'.matchConductors.length ≤ m.matchConductors.length ∧ m'.create.owes = m.create.owes := by
  have hlt {i : Nat} {slot : Slot} (hi : m.matchConductors[i]? = some slot) : i < m.matchConductors.length :=
    (List.getElem?_eq_some_iff.mp hi).1
  have hdelete : ∀ o, (m.delete o).matchConductors = m.matchConductors := fun o => by cases o <;> rfl
  rw [hcreate]
  cases eraseStep_cases hstep with
  | found i past => exact ⟨by simp only [CreatePc.stepsLeft, ErasePc.stepsLeft]; omega, Nat.le_refl _, rfl⟩
  | find i slot remove next =>
    have hi := hlt next
    refine ⟨?_, Nat.le_refl _, rfl⟩
    cases remove <;>
      simp only [Bool.false_eq_true, if_true, if_false, CreatePc.stepsLeft, ErasePc.stepsLeft] <;> omega
  | scanned r i past => exact ⟨by simp only [CreatePc.stepsLeft, ErasePc.stepsLeft]; omega, Nat.le_refl _, rfl⟩
  | scan r i slot remove next =>
    have hi := hlt next
    refine ⟨?_, Nat.le_refl _, rfl⟩
    cases remove <;>
      simp only [Bool.false_eq_true, if_true, if_false, CreatePc.stepsLeft, ErasePc.stepsLeft] <;> omega
  | moveConductor r i target source earlier next =>
    simp only [setSlot, List.length_set, hdelete]
    exact ⟨by simp only [CreatePc.stepsLeft, ErasePc.stepsLeft]; omega, Nat.le_refl _, rfl⟩
  | moveThread r i target source earlier next =>
    have hi := hlt next
    have hr := hlt earlier
    simp only [setSlot, List.length_set]
    exact ⟨by simp only [CreatePc.stepsLeft, ErasePc.stepsLeft]; omega, Nat.le_refl _, rfl⟩
  | erased r j past =>
    refine ⟨by simp only [CreatePc.stepsLeft, ErasePc.stepsLeft]; omega, ?_, rfl⟩
    rw [List.length_take]
    omega
  | joinTail r j slot next =>
    exact ⟨by simp only [CreatePc.stepsLeft, ErasePc.stepsLeft]; omega, Nat.le_refl _, rfl⟩
  | deleteTail r j slot next =>
    have hj := hlt next
    simp only [setSlot, List.length_set, hdelete]
    exact ⟨by simp only [CreatePc.stepsLeft, ErasePc.stepsLeft]; omega, Nat.le_refl _, rfl⟩

/-- The games made so far, all together. -/
def gamesLeft (m : MatchConductorManager) : Nat :=
  Transition.tally (.range m.made) MatchConductor.stepsLeft m.conductors

theorem gamesLeft_setConductor {m : MatchConductorManager} {g : GameId} {c : MatchConductor} (hg : g < m.made) :
    (m.setConductor g c).gamesLeft + (m.conductors g).stepsLeft = m.gamesLeft + c.stepsLeft :=
  Transition.tally_update (Finset.mem_range.mpr hg) c

theorem gamesLeft_setConductor_le {m : MatchConductorManager} {g : GameId} {c : MatchConductor}
    (hle : c.stepsLeft ≤ (m.conductors g).stepsLeft) : (m.setConductor g c).gamesLeft ≤ m.gamesLeft := by
  by_cases hg : g < m.made
  · have hsum := gamesLeft_setConductor (c := c) hg
    omega
  · have hsame : (m.setConductor g c).gamesLeft = m.gamesLeft := by
      unfold gamesLeft Transition.tally
      refine Finset.sum_congr rfl fun g' hg' => ?_
      have hne : g' ≠ g := fun he => hg (he ▸ Finset.mem_range.mp hg')
      simp only [setConductor, Function.update_of_ne hne]
    exact Nat.le_of_eq hsame

theorem gamesLeft_delete (m : MatchConductorManager) (o : Option GameId) : (m.delete o).gamesLeft ≤ m.gamesLeft := by
  cases o with
  | none => exact Nat.le_refl _
  | some g => exact gamesLeft_setConductor_le (m.conductors g).stepsLeft_destroy

theorem gamesLeft_eraseStep {m m' : MatchConductorManager} {ps : List (Option ConnId)} {e : ErasePc}
    (hstep : m.eraseStep ps e = some (.ok m')) : m'.gamesLeft ≤ m.gamesLeft := by
  cases eraseStep_cases hstep with
  | moveConductor r i target source => exact gamesLeft_delete m target.conductor
  | deleteTail r j slot => exact gamesLeft_delete m slot.conductor
  | _ => exact Nat.le_refl _

/-- The constructor lets the call give out what it owes the game. -/
theorem gamesLeft_construct {m : MatchConductorManager} {ps : List (Option ConnId)} {c : MatchConductor}
    (h : MatchConductor.construct ps = .ok c) :
    ({ m.setConductor m.made c with made := m.made + 1, create := .start m.made } :
      MatchConductorManager).gamesLeft = m.gamesLeft + (6 * ps.length + 8) := by
  obtain ⟨-, rfl⟩ := construct_ok h
  unfold gamesLeft
  rw [Finset.range_add_one]
  exact Transition.tally_insert Finset.notMem_range_self _

/-- What is left of the call, of what it owes and of the games. -/
def callLeft (m : MatchConductorManager) : Nat :=
  m.create.stepsLeft m.matchConductors.length + m.create.owes + m.gamesLeft

/-- **A step of `CreateMatchConductor` brings its end nearer**, and a pair that
it puts in the vector was owed. -/
theorem createStep_callLeft {m m' : MatchConductorManager} (hinv : m.Inv) (hstep : m.createStep = some (.ok m')) :
    m'.create.stepsLeft m'.matchConductors.length < m.create.stepsLeft m.matchConductors.length ∧
      m'.callLeft + 3 * (m'.matchConductors.length - m.matchConductors.length) < m.callLeft := by
  unfold callLeft
  cases createStep_cases hstep with
  | refuse ps place =>
    simp only [place, CreatePc.stepsLeft, CreatePc.owes, gamesLeft]
    omega
  | accept ps place =>
    simp only [place, CreatePc.stepsLeft, CreatePc.owes, gamesLeft]
    omega
  | lockCleanUp ps place =>
    simp only [place, CreatePc.stepsLeft, ErasePc.stepsLeft, CreatePc.owes, gamesLeft]
    omega
  | cleanUp ps e m' place erases =>
    obtain ⟨hlt, hle, howes⟩ := eraseStep_stepsLeft place erases
    have hgames := gamesLeft_eraseStep erases
    omega
  | unlockCleanUp ps place =>
    simp only [place, release, CreatePc.stepsLeft, CreatePc.owes, gamesLeft]
    omega
  | construct ps c place constructs =>
    rw [gamesLeft_construct constructs]
    simp only [place, setConductor, CreatePc.stepsLeft, CreatePc.owes]
    omega
  | start g place =>
    have hgames : (m.setConductor g ((m.conductors g).goto .head)).gamesLeft ≤ m.gamesLeft := by
      refine gamesLeft_setConductor_le ?_
      simp only [MatchConductor.stepsLeft, MatchConductor.goto, hinv.starting g place]
      cases (m.conductors g).stop <;> simp [GamePc.stepsLeft]
    simp only [place, CreatePc.stepsLeft, CreatePc.owes]
    simp only [setConductor, gamesLeft] at hgames ⊢
    omega
  | lockRegister g place =>
    simp only [place, CreatePc.stepsLeft, CreatePc.owes, gamesLeft]
    omega
  | register g place =>
    simp only [place, release, CreatePc.stepsLeft, CreatePc.owes, gamesLeft, List.length_append,
      List.length_singleton]
    omega

theorem endStep_stepsLeft {m m' : MatchConductorManager} (hstep : m.endStep = some (.ok m')) :
    m'.finish.stepsLeft m.matchConductors.length < m.finish.stepsLeft m.matchConductors.length ∧
      m'.gamesLeft ≤ m.gamesLeft := by
  cases endStep_cases hstep with
  | setFlag place => exact ⟨by simp [place, EndPc.stepsLeft], Nat.le_refl _⟩
  | lock place => exact ⟨by simp [place, EndPc.stepsLeft], Nat.le_refl _⟩
  | forced i place past =>
    refine ⟨?_, Nat.le_refl _⟩
    simp only [place, EndPc.stepsLeft]
    omega
  | force i slot g place next =>
    have hi : i < m.matchConductors.length := (List.getElem?_eq_some_iff.mp next).1
    refine ⟨?_, gamesLeft_setConductor_le (m.conductors g).stepsLeft_forceFinish⟩
    simp only [place, EndPc.stepsLeft]
    omega
  | unlock place => exact ⟨by simp [place, EndPc.stepsLeft], Nat.le_refl _⟩

end MatchConductorManager

/-! ## The callbacks, the match maker and the main thread -/

def CallbackPc.stepsLeft : CallbackPc → Nat
  | .idle => 0
  | .openTestStop => 5
  | .lockRegister => 4
  | .register => 3
  | .lockPush => 2
  | .push => 1
  | .opened => 0
  | .closeTestStop => 12
  | .lockClose => 11
  | .find => 10
  | .setClosed => 9
  | .erase => 8
  | .lockHandler => 7
  | .notify rest => 2 * rest.length + 2
  | .scan _ rest => 2 * rest.length + 3
  | .unlockClose => 1
  | .closed => 0

/-- The steps left of `Run` when it is told to stop, with a vector of `n` pairs;
a call of `CreateMatchConductor` under way apart. -/
def MakerPc.stepsLeft (n : Nat) : MakerPc → Nat
  | .unstarted => 0
  | .testStop => 1
  | .creating => 2
  | .assemble => 5 * n + 40
  | .lockBuffer => 5 * n + 41
  | .fill => 5 * n + 42
  | .lockBoth => 5 * n + 43
  | .unlockWait => 5 * n + 44
  | .wake => 5 * n + 45
  | .wait => 5 * n + 46
  | .lockWait => 5 * n + 47
  | .empty => 5 * n + 48
  | .lockEmpty => 5 * n + 49
  | .returned => 0

/-- The steps left of the loop of `ServerManager::End`, with those in the `End`
of each observer. -/
def endSteps (n : Nat) : List ManagerObserver → Nat
  | [] => 1
  | .matchMaker :: rest => endSteps n rest + 3
  | .server :: rest => endSteps n rest + 2
  | .matchConductorManager :: rest => endSteps n rest + n + 6

/-- The steps left of the main thread in `ServerManager::End`, a call of
`MatchConductorManager::End` under way apart. -/
def MainPc.stepsLeft (n : Nat) : MainPc → Nat
  | .ending rest => endSteps n rest
  | .makerJoin rest => endSteps n rest + 2
  | .makerResetStop rest => endSteps n rest + 1
  | .serverStop rest => endSteps n rest + 1
  | .managerEnd rest => endSteps n rest + 1
  | _ => 0

namespace Server

theorem CallbackWalk.stepsLeft {stop : Bool} {pc pc' : CallbackPc} {op : LockOp} (h : CallbackWalk stop pc op pc') :
    pc'.stepsLeft < pc.stepsLeft := by
  cases h with
  | openTestStop => cases stop <;> decide
  | closeTestStop => cases stop <;> decide
  | notify observer rest => simp [CallbackPc.stepsLeft, Nat.mul_add]
  | scan observer rest => simp [CallbackPc.stepsLeft]
  | _ => decide

/-- A match maker that is told to stop comes nearer its end. -/
theorem MakerWalk.stepsLeft {pc pc' : MakerPc} {op : LockOp} (h : MakerWalk true pc op pc') (n : Nat) :
    pc'.stepsLeft n < pc.stepsLeft n := by
  cases h with
  | empty isEmpty => cases isEmpty <;> simp [MakerPc.stepsLeft]
  | tooFew | assemble =>
    simp only [MakerPc.stepsLeft]
    omega
  | _ => simp [MakerPc.stepsLeft]

end Server

end PokerEngine
