/-
How a run of the program can end in a fault. Nothing is dereferenced null or
past the end, in any run: the games' loops look only at players that are there
(`Filled`), the clean-up only at pairs that are (`createStep_ne_error`), and a
close callback finds its connection (`Entered`). What is left are the abort of a
scan and the use of a deleted conductor, and each has one cause.
-/
import PokerEngine.Closure
import PokerEngine.Ownership

namespace PokerEngine

open Slot (full pairs)

/-- The player that the inner part of the loop of `FinishGame` looks at. -/
def GamePc.inLoop : GamePc → Option Nat
  | .notify i _ => some i
  | .testStop i _ => some i
  | .pushLock i _ _ => some i
  | .push i _ _ => some i
  | _ => none

namespace MatchConductor

/-- The players that the loops have yet to look at are there. -/
structure Filled (c : MatchConductor) : Prop where
  ahead : ∀ j, c.pc.visited c.players.length ≤ j → c.players[j]? ≠ some none
  inLoop : ∀ i, c.pc.inLoop = some i → i < c.players.length

/-- A step to a place outside the inner part of the loop. -/
theorem Filled.of_ahead {c : MatchConductor}
    (hahead : ∀ j, c.pc.visited c.players.length ≤ j → c.players[j]? ≠ some none)
    (hpc : c.pc.inLoop = none) : c.Filled :=
  ⟨hahead, fun i hi => by simp [hpc] at hi⟩

/-- A step to a place in the inner part of the loop, at a player that is in the
vector. -/
theorem Filled.of_lt {c : MatchConductor} {i : Nat}
    (hahead : ∀ j, c.pc.visited c.players.length ≤ j → c.players[j]? ≠ some none)
    (hi : i < c.players.length) (hpc : c.pc.inLoop = some i) : c.Filled :=
  ⟨hahead, fun _ hj => Option.some.inj (hpc.symm.trans hj) ▸ hi⟩

theorem Filled.step {closed alive : ConnId → Bool} {c c' : MatchConductor} {e : Effect} (h : c.Filled)
    (hstep : c.step closed alive = some (c', e)) : c'.Filled := by
  have hahead := h.ahead
  have hinLoop := h.inLoop
  have hlater {i : Nat} (hi : ∀ j, i ≤ j → c.players[j]? ≠ some none) :
      ∀ j, i + 1 ≤ j → c.players[j]? ≠ some none := fun j hj => hi j (by omega)
  have hlt {i : Nat} {p : ConnId} (hp : c.players[i]? = some (some p)) : i < c.players.length :=
    (List.getElem?_eq_some_iff.mp hp).1
  cases step_cases hstep with
  | fails => exact h
  | stopped place | begins place | welcomed _ place | misses _ _ place | leaves place | wakes place =>
    rw [place] at hahead
    exact .of_ahead hahead rfl
  | greets i p place =>
    rw [place] at hahead
    exact .of_ahead hahead rfl
  | finished i left place past =>
    refine .of_ahead (fun j hj => ?_) rfl
    rw [goto] at hj ⊢
    rw [List.getElem?_eq_none hj]
    simp
  | skips i left p place player =>
    rw [place] at hahead
    exact .of_ahead (hlater hahead) rfl
  | meets i left p place player =>
    rw [place] at hahead
    exact .of_lt (i := i) hahead (hlt player) rfl
  | notifies i left p place player =>
    rw [place] at hahead
    exact .of_lt (i := i) hahead (hlt player) rfl
  | cannotNotify i left p place player =>
    rw [place] at hahead
    exact .of_lt (i := i) hahead (hlt player) rfl
  | keeps i left place =>
    rw [place] at hahead
    exact .of_ahead (hlater hahead) rfl
  | moves i left p place player =>
    rw [place] at hahead
    refine .of_lt (i := i) (fun j hj => ?_) (by simpa using hlt player) rfl
    have hj : i + 1 ≤ j := hj
    rw [List.getElem?_set_ne (by omega)]
    exact hahead j (Nat.le_of_succ_le hj)
  | locks i left p place =>
    rw [place] at hahead
    exact .of_lt (i := i) hahead (hinLoop i (by rw [place]; rfl)) rfl
  | pushes i left p place =>
    rw [place] at hahead
    exact .of_ahead hahead rfl
  | clears left place => exact .of_ahead (by simp) rfl
  | setsStop left place =>
    rw [place] at hahead
    cases left
    · exact .of_ahead hahead rfl
    · exact .of_ahead hahead rfl

/-- The thread meets no null player. -/
theorem Filled.step_ne_fault {closed alive : ConnId → Bool} {c c' : MatchConductor} {f : Fault} (h : c.Filled) :
    c.step closed alive ≠ some (c', .fault f) := by
  intro hstep
  have hplayer {i : Nat} (hi : i < c.players.length) (hne : c.players[i]? ≠ some none) :
      ∃ p, c.players[i]? = some (some p) := by
    cases hc : c.players[i]? with
    | none => exact absurd (List.getElem?_eq_none_iff.mp hc) (Nat.not_le.mpr hi)
    | some o =>
      cases o with
      | none => exact absurd hc hne
      | some p => exact ⟨p, rfl⟩
  have hahead := h.ahead
  cases hpc : c.pc with
  | welcome i =>
    rw [hpc] at hahead
    have hne := hahead i (Nat.zero_le i)
    simp only [MatchConductor.step, hpc] at hstep
    split at hstep
    · simp at hstep
    · exact hne ‹_›
    · split at hstep <;> simp at hstep
  | finish i left =>
    rw [hpc] at hahead
    have hne := hahead i (Nat.le_refl i)
    simp only [MatchConductor.step, hpc] at hstep
    split at hstep
    · simp at hstep
    · exact hne ‹_›
    · simp at hstep
  | notify i left =>
    rw [hpc] at hahead
    obtain ⟨p, hp⟩ := hplayer (h.inLoop i (by rw [hpc]; rfl)) (hahead i (Nat.le_refl i))
    simp [MatchConductor.step, hpc, hp] at hstep
  | testStop i left =>
    rw [hpc] at hahead
    obtain ⟨p, hp⟩ := hplayer (h.inLoop i (by rw [hpc]; rfl)) (hahead i (Nat.le_refl i))
    simp only [MatchConductor.step, hpc, hp] at hstep
    split at hstep <;> simp at hstep
  | _ => simp [MatchConductor.step, hpc] at hstep

theorem filled_of_fresh {c : MatchConductor} (hplayers : ∀ o ∈ c.players, o.isSome = true)
    (hpc : c.pc = .unstarted ∨ c.pc = .head) : c.Filled := by
  have hvisited : c.pc.visited c.players.length = 0 := by rcases hpc with h | h <;> rw [h] <;> rfl
  refine .of_ahead (fun j _ hj => ?_) ?_
  · exact absurd (hplayers none (List.mem_of_getElem? hj)) (by simp)
  · rcases hpc with h | h <;> rw [h] <;> rfl

end MatchConductor

namespace MatchConductorManager

/-! ## The manager's own faults -/

/-- The live games' players are there, and those on their way into the next
game. -/
structure Seated (m : MatchConductorManager) : Prop where
  games : ∀ g, (m.conductors g).destroyed = false → (m.conductors g).Filled
  argument : ∀ o ∈ m.argument, o.isSome = true

theorem getElem?_pairs {gs : List GameId} {i : Nat} {slot : Slot} (h : (pairs gs)[i]? = some slot) :
    ∃ g, slot = full g := by
  obtain ⟨g, -, rfl⟩ := List.mem_map.mp (List.mem_of_getElem? h)
  exact ⟨g, rfl⟩

/-- The clean-up looks at no slot whose conductor is gone, and at none past the
end. -/
theorem eraseStep_ne_error {m : MatchConductorManager} {ps : List (Option ConnId)} {e : ErasePc} {f : Fault}
    (h : m.Inv) (hcreate : m.create = .cleanUp ps e) : m.eraseStep ps e ≠ some (.error f) := by
  have hlayout := h.layout
  unfold Layout at hlayout
  rw [hcreate] at hlayout
  intro hstep
  cases e with
  | find i =>
    obtain ⟨kept, hslots, -⟩ := hlayout
    cases hslot : m.matchConductors[i]? with
    | none => simp [eraseStep, hslot] at hstep
    | some slot =>
      obtain ⟨g, rfl⟩ := getElem?_pairs (hslots ▸ hslot)
      simp [eraseStep, hslot, removable_full, bind, Except.bind, pure, Except.pure] at hstep
  | scan r i =>
    obtain ⟨kept, gap, rest, hslots, -, -, -, hi, -⟩ := hlayout
    cases hslot : m.matchConductors[i]? with
    | none => simp [eraseStep, hslot] at hstep
    | some slot =>
      have hrest : (pairs rest)[0]? = some slot := by
        rw [hslots, ← List.append_assoc, List.getElem?_append_right (by simp [hi, length_pairs])] at hslot
        simpa [hi, length_pairs] using hslot
      obtain ⟨g, rfl⟩ := getElem?_pairs hrest
      simp [eraseStep, hslot, removable_full, bind, Except.bind, pure, Except.pure] at hstep
  | moveConductor r i =>
    obtain ⟨kept, old, gap, g, rest, hslots, -, -, rfl, rfl⟩ := hlayout
    have hr : m.matchConductors[kept.length]? = some old := by
      rw [hslots, ← length_pairs kept, getElem?_mid]
    have hi : m.matchConductors[kept.length + 1 + gap.length]? = some (full g) := by
      rw [hslots, ← length_pairs kept, getElem?_two]
    simp [eraseStep, hr, hi] at hstep
  | moveThread r i =>
    obtain ⟨kept, t, gap, g, rest, hslots, -, -, rfl, rfl⟩ := hlayout
    have hr : m.matchConductors[kept.length]? = some ⟨some g, t⟩ := by
      rw [hslots, ← length_pairs kept, getElem?_mid]
    have hi : m.matchConductors[kept.length + 1 + gap.length]? = some ⟨none, some g⟩ := by
      rw [hslots, ← length_pairs kept, getElem?_two]
    simp only [eraseStep, hr, hi] at hstep
    split at hstep <;> simp at hstep
  | joinTail r j =>
    simp only [eraseStep] at hstep
    split at hstep
    · simp at hstep
    · split at hstep <;> simp at hstep
  | deleteTail r j =>
    obtain ⟨kept, gone, old, gap, hslots, -, -, -, -, rfl, rfl⟩ := hlayout
    have hj : m.matchConductors[kept.length + gone.length]? = some old := by
      rw [hslots, ← List.append_assoc, ← length_pairs kept, ← List.length_append, getElem?_mid]
    simp [eraseStep, hj] at hstep

theorem createStep_ne_error {m : MatchConductorManager} {f : Fault} (h : m.Inv) (hseated : m.Seated) :
    m.createStep ≠ some (.error f) := by
  intro hstep
  cases hcreate : m.create with
  | cleanUp ps e => exact eraseStep_ne_error h hcreate (by simpa only [createStep, hcreate] using hstep)
  | construct ps =>
    have hall : ps.all Option.isSome = true :=
      List.all_eq_true.mpr fun o ho => hseated.argument o (by simpa [argument, hcreate] using ho)
    simp [createStep, hcreate, MatchConductor.construct, hall, bind, Except.bind, pure, Except.pure] at hstep
  | lockCleanUp ps =>
    simp only [createStep, hcreate, acquire, bind, Option.bind, pure] at hstep
    split at hstep <;> simp_all
  | lockRegister g =>
    simp only [createStep, hcreate, acquire, bind, Option.bind, pure] at hstep
    split at hstep <;> simp_all
  | _ => simp [createStep, hcreate] at hstep

/-- `End` goes through whole pairs: it holds the mutex, so no clean-up is under
way. -/
theorem endStep_ne_error {m : MatchConductorManager} {f : Fault} (h : m.Inv)
    (hcleanUp : ∀ i, m.finish = .force i → ∀ ps e, m.create ≠ .cleanUp ps e) : m.endStep ≠ some (.error f) := by
  intro hstep
  cases hfinish : m.finish with
  | force i =>
    obtain ⟨kept, hslots, -⟩ := h.whole (hcleanUp i hfinish)
    cases hslot : m.matchConductors[i]? with
    | none => simp [endStep, hfinish, hslot] at hstep
    | some slot =>
      obtain ⟨g, rfl⟩ := getElem?_pairs (hslots ▸ hslot)
      simp [endStep, hfinish, hslot, full] at hstep
  | lock =>
    simp only [endStep, hfinish, acquire, bind, Option.bind, pure] at hstep
    split at hstep <;> simp_all
  | _ => simp [endStep, hfinish] at hstep

/-- A game's step goes wrong only under a conductor that was deleted. -/
theorem Seated.gameStep_error {closed alive : ConnId → Bool} {m : MatchConductorManager} {g : GameId} {f : Fault}
    (h : m.Seated) (hstep : m.gameStep closed alive g = some (.error f)) :
    f = .useAfterFree ∧ (m.conductors g).destroyed = true ∧ (m.conductors g).pc ≠ .returned := by
  cases hs : (m.conductors g).step closed alive with
  | none => simp [gameStep, hs] at hstep
  | some r =>
    obtain ⟨c, e⟩ := r
    cases hd : (m.conductors g).destroyed with
    | true =>
      simp only [gameStep, hs, hd, bind, Option.bind, pure, if_true, Option.some.injEq, Except.error.injEq] at hstep
      exact ⟨hstep.symm, rfl, (MatchConductor.step_keeps hs).2.2.2⟩
    | false =>
      cases e with
      | fault f' => exact absurd hs (h.games g hd).step_ne_fault
      | _ => simp [gameStep, hs, hd, pure] at hstep

theorem Seated.setConductor {m : MatchConductorManager} {g : GameId} {c : MatchConductor} (h : m.Seated)
    (hc : c.destroyed = false → c.Filled) : (m.setConductor g c).Seated :=
  ⟨forall_setConductor (fun _ c => c.destroyed = false → c.Filled) hc h.games, h.argument⟩

theorem Seated.create {m m' : MatchConductorManager} (hinv : m.Inv) (h : m.Seated)
    (hstep : m.createStep = some (.ok m')) : m'.Seated := by
  cases (createStep_spec hinv hstep).2 with
  | moved conductors _ argument => exact ⟨conductors ▸ h.games, argument ▸ h.argument⟩
  | refused _ conductors _ argument => exact ⟨conductors ▸ h.games, by simp [argument]⟩
  | deleted g _ _ conductors _ argument =>
    refine ⟨fun g' hg' => ?_, argument ▸ h.argument⟩
    rw [conductors, delete_conductors] at hg' ⊢
    split
    next heq => simp [heq, MatchConductor.destroy] at hg'
    next hne =>
      rw [if_neg hne] at hg'
      exact h.games g' hg'
  | made c construct conductors _ argument =>
    obtain ⟨hall, rfl⟩ := construct_ok construct
    refine ⟨?_, by simp [argument]⟩
    rw [conductors]
    exact (h.setConductor fun _ => MatchConductor.filled_of_fresh hall (.inl rfl)).games
  | started g create conductors _ argument =>
    refine ⟨?_, argument ▸ h.argument⟩
    rw [conductors]
    refine (h.setConductor fun hd => ?_).games
    have hahead := (h.games g hd).ahead
    rw [hinv.starting g create] at hahead
    exact .of_ahead hahead rfl

theorem Seated.finish {m m' : MatchConductorManager} (h : m.Seated) (hstep : m.endStep = some (.ok m')) :
    m'.Seated := by
  obtain ⟨-, hcreate, -, hconductors⟩ := endStep_ok hstep
  have hargument : m'.argument = m.argument := by simp only [MatchConductorManager.argument, hcreate]
  refine ⟨?_, hargument ▸ h.argument⟩
  rcases hconductors with hc | ⟨g, -, hc⟩
  · exact hc ▸ h.games
  · rw [hc]
    refine (h.setConductor (c := (m.conductors g).forceFinish) fun hd => ?_).games
    exact ⟨(h.games g hd).ahead, (h.games g hd).inLoop⟩

theorem Outlived.initial : initial.Outlived := by
  intro g hg
  change false = true at hg
  simp at hg

end MatchConductorManager

/-- Between its two moves in `connections_`: past the push, before the erase. -/
@[simp] def CallbackPc.entered : CallbackPc → Bool
  | .lockPush => true
  | .push => true
  | .lockClose => true
  | .find => true
  | .setClosed => true
  | .erase => true
  | _ => false

/-- Past `OnNewConnectionEstablished`, not yet past the test of `stop_` in
`OnConnectionClosed`. -/
@[simp] def CallbackPc.settled : CallbackPc → Bool
  | .opened => true
  | .closeTestStop => true
  | _ => false

theorem MatchMaker.length_fill {l : Lobby} {m : MatchMaker}
    (h : m.intermediateBuffer.length ≤ gNumberOfPlayersInGame) :
    (fill l m).2.intermediateBuffer.length ≤ gNumberOfPlayersInGame := by
  unfold fill
  split
  · exact h
  · split
    next => exact h
    next hlen =>
      rw [List.length_append, List.length_singleton]
      omega

theorem MatchMaker.moveInto_isOk {α : Type} (players : List (Option α)) (xs : List α)
    (h : xs.length ≤ players.length) : ∃ moved, moveInto players xs = .ok moved := by
  induction xs generalizing players with
  | nil => exact ⟨players, by cases players <;> rfl⟩
  | cons x xs ih =>
    obtain _ | ⟨p, players⟩ := players
    · simp at h
    · obtain ⟨moved, hmoved⟩ := ih players (by simpa using h)
      exact ⟨some x :: moved, by simp [moveInto, hmoved, bind, Except.bind, pure, Except.pure]⟩

theorem MatchMaker.assembleGame_ne_error {m : MatchMaker} {f : Fault}
    (h : m.intermediateBuffer.length ≤ gNumberOfPlayersInGame) : m.assembleGame ≠ .error f := by
  obtain ⟨players, hplayers⟩ := moveInto_isOk (List.replicate gNumberOfPlayersInGame none) m.intermediateBuffer
    (by simpa using h)
  simp [assembleGame, hplayers, bind, Except.bind, pure, Except.pure]

theorem MatchMaker.argument_isSome {m m' : MatchMaker} {players : List (Option Waiting)}
    (hfull : m.intermediateBuffer.length = gNumberOfPlayersInGame)
    (h : m.assembleGame = .ok (players, m')) : ∀ o ∈ players.map (Option.map Waiting.id), o.isSome = true := by
  rw [assembleGame_of_full hfull] at h
  obtain ⟨rfl, -⟩ := Prod.mk.inj (Except.ok.inj h)
  intro o ho
  simp only [List.map_map, List.mem_map, Function.comp_apply, Option.map_some] at ho
  obtain ⟨w, -, rfl⟩ := ho
  rfl

namespace Server

/-! ## The close callbacks find their connection -/

structure Entered (s : Server) : Prop where
  entered : ∀ c, (s.callbacks c).entered = true → c ∈ s.connections
  settled : ∀ c, (s.callbacks c).settled = true → c ∈ s.connections ∨ s.stop = true

theorem Entered.initial : initial.Entered := by
  refine ⟨fun c h => ?_, fun c h => ?_⟩
  · change CallbackPc.entered .idle = true at h
    simp at h
  · change CallbackPc.settled .idle = true at h
    simp at h

theorem Entered.same {s s' : Server} (h : s.Entered) (hcallbacks : s'.callbacks = s.callbacks)
    (hconnections : s'.connections = s.connections) (hstop : s.stop = true → s'.stop = true) : s'.Entered := by
  refine ⟨?_, fun c hc => ?_⟩
  · rw [hcallbacks, hconnections]
    exact h.entered
  · rw [hconnections]
    exact (h.settled c (hcallbacks ▸ hc)).imp_right hstop

/-- The thread of `c` goes on, and no other connection leaves the list. -/
theorem Entered.moves {s s' : Server} {c : ConnId} {pc : CallbackPc} (h : s.Entered)
    (hcallbacks : s'.callbacks = Function.update s.callbacks c pc) (hstop : s'.stop = s.stop)
    (hothers : ∀ c', c' ≠ c → c' ∈ s.connections → c' ∈ s'.connections)
    (hentered : pc.entered = true → c ∈ s'.connections)
    (hsettled : pc.settled = true → c ∈ s'.connections ∨ s.stop = true) : s'.Entered := by
  refine ⟨fun c' hc' => ?_, fun c' hc' => ?_⟩
  · by_cases he : c' = c
    · subst he
      rw [hcallbacks, Function.update_self] at hc'
      exact hentered hc'
    · rw [hcallbacks, Function.update_of_ne he] at hc'
      exact hothers c' he (h.entered c' hc')
  · rw [hstop]
    by_cases he : c' = c
    · subst he
      rw [hcallbacks, Function.update_self] at hc'
      exact hsettled hc'
    · rw [hcallbacks, Function.update_of_ne he] at hc'
      exact (h.settled c' hc').imp_left (hothers c' he)

theorem CallbackStep.entered {s s' : Server} {c : ConnId} (h : s.Entered) (hstep : CallbackStep s c s') :
    s'.Entered := by
  cases hstep with
  | notFound => exact h.same rfl rfl id
  | scanFails => exact h.same rfl rfl id
  | move pc pc' op d place walk free data =>
    have hin : pc.entered = true → c ∈ s.connections := fun hpc => h.entered c (place ▸ hpc)
    have hset : pc.settled = true → c ∈ s.connections ∨ s.stop = true := fun hpc => h.settled c (place ▸ hpc)
    cases walk with
    | openTestStop =>
      cases data
      refine h.moves rfl rfl (fun _ _ => id) ?_ ?_
      · cases s.stop <;> simp [CallbackPc.entered]
      · cases s.stop <;> simp [CallbackPc.settled]
    | closeTestStop =>
      cases data
      refine h.moves rfl rfl (fun _ _ => id) (fun hpc => ?_) ?_
      · have hstop : s.stop = false := by cases hs : s.stop <;> simp_all [CallbackPc.entered]
        exact (hset rfl).resolve_right (by simp [hstop])
      · cases s.stop <;> simp [CallbackPc.settled]
    | register =>
      cases data with
      | quiet _ hpc => simp [CallbackPc.quiet] at hpc
      | register => exact h.moves rfl rfl (fun c' _ hc' => List.mem_append_left _ hc') (fun _ => by simp) (by simp)
    | erase =>
      cases data with
      | quiet _ hpc => simp [CallbackPc.quiet] at hpc
      | erase => exact h.moves rfl rfl (fun c' hne hc' => (List.mem_erase_of_ne hne).mpr hc') (by simp) (by simp)
    | push =>
      cases data with
      | quiet _ hpc => simp [CallbackPc.quiet] at hpc
      | push => exact h.moves rfl rfl (fun _ _ => id) (by simp) fun _ => .inl (hin rfl)
    | setClosed =>
      cases data with
      | quiet _ hpc => simp [CallbackPc.quiet] at hpc
      | setClosed => exact h.moves rfl rfl (fun _ _ => id) (fun _ => hin rfl) (by simp)
    | scan observer rest => cases data <;> exact h.moves rfl rfl (fun _ _ => id) (by simp) (by simp)
    | lockPush => cases data; exact h.moves rfl rfl (fun _ _ => id) (fun _ => hin rfl) (by simp)
    | lockClose => cases data; exact h.moves rfl rfl (fun _ _ => id) (fun _ => hin rfl) (by simp)
    | find => cases data; exact h.moves rfl rfl (fun _ _ => id) (fun _ => hin rfl) (by simp)
    | lockRegister | lockHandler | unlockHandler | notify | unlockClose =>
      cases data
      exact h.moves rfl rfl (fun _ _ => id) (by simp) (by simp)

theorem MakerStep.registers {s s' : Server} (hstep : MakerStep s s') :
    s'.connections = s.connections ∧ s'.stop = s.stop := by
  cases hstep with
  | move pc pc' op d place walk free data => cases data <;> exact ⟨rfl, rfl⟩
  | _ => exact ⟨rfl, rfl⟩

theorem MainStep.registers {s s' : Server} (hstep : MainStep s s') :
    s'.connections = s.connections ∧ (s.stop = true → s'.stop = true) := by
  cases hstep with
  | move pc pc' op d place walk free data => cases data <;> exact ⟨rfl, fun h => by first | exact h | rfl⟩
  | _ => exact ⟨rfl, id⟩

theorem Entered.step {s s' : Server} {a : Action} (h : s.Entered) (hstep : s.step a = some s') :
    s'.Entered := by
  cases (step_cases hstep).2 with
  | connect c => exact h.moves (c := c) rfl rfl (fun _ _ => id) (by simp) (by simp)
  | disconnect c listening opened =>
    exact h.moves (c := c) rfl rfl (fun _ _ => id) (by simp) fun _ => h.settled c (by rw [opened]; rfl)
  | socketGone => exact h.same rfl rfl id
  | quit => exact h.same rfl rfl id
  | main _ hs => exact h.same hs.frame.1 hs.registers.1 hs.registers.2
  | maker _ hs => exact h.same hs.frame.2.1 hs.registers.1 (hs.registers.2 ▸ id)
  | callback c _ hs => exact hs.entered h
  | game g _ hs => cases hs <;> exact h.same rfl rfl id

/-! ## Every step -/

/-- What keeps the faults of one thread from another's data. -/
structure Sound (s : Server) : Prop where
  locks : s.LocksOk
  entered : s.Entered
  seated : s.manager.Seated
  buffer : s.matchMaker.intermediateBuffer.length ≤ gNumberOfPlayersInGame

theorem Sound.initial : initial.Sound where
  locks := .initial
  entered := .initial
  seated :=
    ⟨fun _ _ => MatchConductor.filled_of_fresh (fun _ ho => absurd ho List.not_mem_nil) (.inl rfl),
      fun _ ho => absurd ho List.not_mem_nil⟩
  buffer := Nat.zero_le _

theorem MakerStep.seated {s s' : Server} (hl : s.Linked) (h : s.manager.Seated) (hstep : MakerStep s s') :
    s'.manager.Seated := by
  cases hstep with
  | move pc pc' op d place walk free data =>
    cases data with
    | quiet => exact h
    | fill => exact h
    | assemble players matchMaker full taken => exact ⟨h.games, MatchMaker.argument_isSome full taken⟩
  | create manager place created => exact h.create hl.inv created
  | _ => exact h

theorem GameStep.seated {s s' : Server} {g : GameId} (h : s.manager.Seated) (hstep : GameStep s g s') :
    s'.manager.Seated := by
  cases hstep with
  | move c e op lobby stepped live free data => exact h.setConductor fun _ => (h.games g live).step stepped
  | fails => exact h

theorem MainStep.seated {s s' : Server} (h : s.manager.Seated) (hstep : MainStep s s') : s'.manager.Seated := by
  cases hstep with
  | move pc pc' op d place walk free data => cases data <;> exact ⟨h.games, h.argument⟩
  | finish manager rest place finished => exact h.finish finished
  | fails => exact h

theorem length_filter_buffer {m m' : MatchMaker} {closed : ConnId → Bool} {id : ConnId} {n : Nat}
    (hscan : m.onConnectionClosed closed id = .ok (n, m')) :
    m'.intermediateBuffer.length ≤ m.intermediateBuffer.length := by
  rw [MatchMaker.onConnectionClosed_ok hscan]
  exact List.length_filter_le _ _

theorem Sound.step {s s' : Server} {a : Action} (h : s.Sound) (hstep : s.step a = some s') : s'.Sound := by
  have hlocks := h.locks.step hstep
  have hentered := h.entered.step hstep
  cases (step_cases hstep).2 with
  | connect => exact ⟨hlocks, hentered, h.seated, h.buffer⟩
  | disconnect => exact ⟨hlocks, hentered, h.seated, h.buffer⟩
  | socketGone => exact ⟨hlocks, hentered, h.seated, h.buffer⟩
  | quit => exact ⟨hlocks, hentered, h.seated, h.buffer⟩
  | main _ hs =>
    refine ⟨hlocks, hentered, hs.seated h.seated, ?_⟩
    cases hs with
    | move pc pc' op d place walk free data => cases data <;> exact h.buffer
    | _ => exact h.buffer
  | maker _ hs =>
    refine ⟨hlocks, hentered, hs.seated h.locks.linked h.seated, ?_⟩
    cases hs with
    | move pc pc' op d place walk free data =>
      cases data with
      | quiet => exact h.buffer
      | fill => exact MatchMaker.length_fill h.buffer
      | assemble players matchMaker full taken =>
        rw [MatchMaker.assembleGame_of_full full] at taken
        obtain ⟨-, rfl⟩ := Prod.mk.inj (Except.ok.inj taken)
        exact Nat.zero_le _
    | _ => exact h.buffer
  | callback c _ hs =>
    refine ⟨hlocks, hentered, hs.frame.2.2 ▸ h.seated, ?_⟩
    cases hs with
    | move pc pc' op d place walk free data =>
      cases data with
      | scanBuffer rest n matchMaker scanned => exact Nat.le_trans (length_filter_buffer scanned) h.buffer
      | _ => exact h.buffer
    | _ => exact h.buffer
  | game g _ hs =>
    refine ⟨hlocks, hentered, hs.seated h.seated, ?_⟩
    cases hs <;> exact h.buffer

/-! ## Who can fault -/

/-- The faults a step can bring: the abort of a scan that meets a closed
connection of another id, or a step under a deleted conductor. -/
inductive FaultStep (s : Server) : Action → Fault → Prop
  | scan (c : ConnId) (observer : ClosureObserver) (rest : List ClosureObserver)
      (place : s.callbacks c = .scan observer rest) (fails : s.scanStash observer c = .error .abort) :
    FaultStep s (.run (.callback c)) .abort
  | game (g : GameId) (deleted : (s.manager.conductors g).destroyed = true)
      (running : (s.manager.conductors g).pc ≠ .returned) : FaultStep s (.run (.game g)) .useAfterFree

theorem scanStash_error {s : Server} {observer : ClosureObserver} {c : ConnId} {f : Fault}
    (h : s.scanStash observer c = .error f) : f = .abort := by
  have hscan {stash : List Waiting} {f : Fault} (hs : scan s.closed c stash = .error f) : f = .abort := by
    rw [scan_eq] at hs
    split at hs
    · simp at hs
    · exact (Except.error.inj hs).symm
  cases observer with
  | lobby =>
    cases hs : scan s.closed c s.lobby.data with
    | ok p => simp [scanStash, Lobby.onConnectionClosed, hs, bind, Except.bind, pure, Except.pure] at h
    | error f' =>
      simp only [scanStash, Lobby.onConnectionClosed, hs, bind, Except.bind, Except.error.injEq] at h
      exact h ▸ hscan hs
  | matchMaker =>
    cases hs : scan s.closed c s.matchMaker.intermediateBuffer with
    | ok p => simp [scanStash, MatchMaker.onConnectionClosed, hs, bind, Except.bind, pure, Except.pure] at h
    | error f' =>
      simp only [scanStash, MatchMaker.onConnectionClosed, hs, bind, Except.bind, Except.error.injEq] at h
      exact h ▸ hscan hs

/-- While `End` holds the mutex of the games' list, no clean-up is under way. -/
theorem LocksOk.no_cleanUp {s : Server} (h : s.LocksOk) {i : Nat} (hfinish : s.manager.finish = .force i)
    (ps : List (Option ConnId)) (e : ErasePc) : s.manager.create ≠ .cleanUp ps e := by
  intro hcreate
  have hmain : Mutex.conductors ∈ s.held .main := List.mem_append_right _ (by simp [hfinish, EndPc.held])
  have hmaker : Mutex.conductors ∈ s.held .maker := List.mem_append_right _ (by simp [hcreate, CreatePc.held])
  have heq := h.owned.unique (t := .main) (u := .maker) hmain hmaker
  simp at heq

/-- **A step that halts the program** is one of the two. -/
theorem Sound.halts {s s' : Server} {a : Action} {f : Fault} (h : s.Sound) (hstep : s.step a = some s')
    (hf : s'.halted = some f) : FaultStep s a f := by
  obtain ⟨hnone, hcases⟩ := step_cases hstep
  have hgoes (hsame : s'.halted = s.halted) : FaultStep s a f := by
    rw [hsame, hnone] at hf
    cases hf
  cases hcases with
  | connect => exact hgoes rfl
  | disconnect => exact hgoes rfl
  | socketGone => exact hgoes rfl
  | quit => exact hgoes rfl
  | main _ hs =>
    cases hs with
    | move pc pc' op d place walk free data => cases data <;> exact hgoes rfl
    | finish => exact hgoes rfl
    | fails f' failed =>
      exact absurd failed (MatchConductorManager.endStep_ne_error h.locks.linked.inv fun i hi =>
        h.locks.no_cleanUp hi)
  | maker _ hs =>
    cases hs with
    | move pc pc' op d place walk free data => cases data <;> exact hgoes rfl
    | create => exact hgoes rfl
    | created => exact hgoes rfl
    | assembleFails f' fails => exact absurd fails (MatchMaker.assembleGame_ne_error h.buffer)
    | createFails f' fails =>
      exact absurd fails (MatchConductorManager.createStep_ne_error h.locks.linked.inv h.seated)
  | callback c _ hs =>
    cases hs with
    | move pc pc' op d place walk free data => cases data <;> exact hgoes rfl
    | notFound place absent => exact absurd (h.entered.entered c (by rw [place]; rfl)) absent
    | scanFails observer rest f' place fails =>
      obtain rfl := scanStash_error fails
      obtain rfl : Fault.abort = f := Option.some.inj hf
      exact .scan c observer rest place fails
  | game g _ hs =>
    cases hs with
    | move => exact hgoes rfl
    | fails f' failed =>
      obtain ⟨rfl, hdeleted, hrunning⟩ := h.seated.gameStep_error failed
      obtain rfl : Fault.useAfterFree = f := Option.some.inj hf
      exact .game g hdeleted hrunning

/-! ## Runs -/

theorem sound_always (as : List Action) : Transition.Always step Sound initial as :=
  Transition.always_of_invariant (fun _ _ _ h hs => h.step hs) .initial as

/-- The only faults of a run are the abort of a scan and the use of a deleted
conductor. -/
theorem halted_always (as : List Action) :
    Transition.Always step (fun s => ∀ f, s.halted = some f → f = .abort ∨ f = .useAfterFree) initial as := by
  have hall : Transition.Always step
      (fun s => s.Sound ∧ ∀ f, s.halted = some f → f = .abort ∨ f = .useAfterFree) initial as := by
    refine Transition.always_of_invariant (fun s a s' h hs => ⟨h.1.step hs, fun f hf => ?_⟩)
      ⟨.initial, fun f hf => ?_⟩ as
    · cases h.1.halts hs hf with
      | scan => exact .inl rfl
      | game => exact .inr rfl
    · change none = some f at hf
      simp at hf
  exact hall.mono fun _ h => h.2

/-- The game whose conductor an action is about to assign another over. -/
def overwritten (s : Server) : Action → Option GameId
  | .run .maker =>
    match s.manager.create with
    | .cleanUp _ (.moveConductor r _) => s.manager.matchConductors[r]?.bind Slot.conductor
    | _ => none
  | _ => none

/-- The condition on a step: a conductor that the clean-up assigns another over
belongs to a thread that has returned. -/
def OverwritesReturned (s : Server) (a : Action) : Prop :=
  ∀ g ∈ s.overwritten a, (s.manager.conductors g).pc = .returned

instance (s : Server) (a : Action) : Decidable (s.OverwritesReturned a) :=
  inferInstanceAs (Decidable (∀ g ∈ s.overwritten a, _))

theorem overwritten_of_overwrites {s : Server} {g : GameId} (h : s.manager.Overwrites g) :
    s.overwritten (.run .maker) = some g := by
  obtain ⟨ps, r, i, old, hcreate, hold, hg⟩ := h
  simp [overwritten, hcreate, hold, hg]

theorem outlived_of_advances {m m' : MatchConductorManager} (h : m.Outlived)
    (hadv : ∀ g, MatchConductorManager.Advances (m.conductors g) (m'.conductors g)) : m'.Outlived :=
  fun g hg => (hadv g).returned (h g ((hadv g).destroyed ▸ hg))

theorem outlived_step {s s' : Server} {a : Action} (hl : s.Linked) (h : s.manager.Outlived)
    (hok : s.OverwritesReturned a) (hstep : s.step a = some s') : s'.manager.Outlived := by
  cases (step_cases hstep).2 with
  | connect => exact h
  | disconnect => exact h
  | socketGone => exact h
  | quit => exact h
  | main _ hs =>
    cases hs with
    | move pc pc' op d place walk free data => cases data <;> exact h
    | finish manager rest place finished =>
      exact outlived_of_advances h (MatchConductorManager.endStep_advances finished)
    | fails => exact h
  | maker _ hs =>
    cases hs with
    | move pc pc' op d place walk free data => cases data <;> exact h
    | create manager place created =>
      have hm : s.manager.step .create = some manager := by
        simp [MatchConductorManager.step, created, Except.toOption]
      refine (MatchConductorManager.Outlived.step_iff hl.inv h hm).mpr fun _ g hg => ?_
      exact hok g (overwritten_of_overwrites hg)
    | _ => exact h
  | callback c _ hs => exact hs.frame.2.2 ▸ h
  | game g _ hs =>
    cases hs with
    | move c e op lobby stepped live free data =>
      exact outlived_of_advances h (hl.inv.conductorStep stepped).2
    | fails => exact h

/-- **Only two races halt the program.** In every run in which each player that
a game puts back into the lobby is open, or has the scan of the lobby for its
closure still to come, and each conductor that the clean-up assigns another over
belongs to a thread that has returned, no step faults. -/
theorem never_halts {as : List Action}
    (h : Transition.Guarded step (fun s a => s.ReturnsOpen a ∧ s.OverwritesReturned a) initial as) :
    Transition.Always step (fun s => s.halted = none) initial as := by
  have hall := Transition.always_of_guarded
    (P := fun s => s.Sound ∧ s.Closings ∧ s.ScansAhead ∧ s.manager.Outlived ∧ s.halted = none)
    (fun s a s' hP hok hs => ?_) ⟨.initial, .initial, .initial, .initial, rfl⟩ h
  · exact hall.mono fun _ hP => hP.2.2.2.2
  obtain ⟨hsound, hclosings, hscans, houtlived, -⟩ := hP
  refine ⟨hsound.step hs, hclosings.step hsound.locks.linked hs,
    (hscans.step_iff hsound.locks hclosings hs).mpr hok.1, outlived_step hsound.locks.linked houtlived hok.2 hs, ?_⟩
  cases hf : s'.halted with
  | none => rfl
  | some f =>
    cases hsound.halts hs hf with
    | scan c observer rest place fails =>
      obtain ⟨t, ht⟩ := hscans.scan_isOk hsound.locks place
      rw [ht] at fails
      cases fails
    | game g deleted running => exact absurd (houtlived g deleted) running

/-- Player 0 is put back into the lobby while its `OnConnectionClosed` is under
way, its scans still to come. -/
theorem never_halts_finishing :
    Transition.Always step (fun s => s.halted = none) initial
      (finishingRun ++ .disconnect 0 :: List.replicate 5 (.run (.callback 0)) ++ List.replicate 2 (.run (.game 0)) ++
        List.replicate 7 (.run (.callback 0))) :=
  never_halts (by decide +kernel)

end Server

end PokerEngine
