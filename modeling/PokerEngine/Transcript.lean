/-
What the players of a game are sent, all together: first the welcomes, to the
first so many of them in order, then the notices of the end, in order again and
one for each player at most. The reason follows from the welcomes: a player has
left when some were not welcomed, else the game has ended normally.

This holds of every game of every run (`sent_eq_transcript`), at any point of it
and of a deleted conductor as well; and the games play the groups that were asked
for, in order.
-/
import PokerEngine.Faults
import PokerEngine.Matching

namespace PokerEngine

namespace MatchConductor

/-- The reason for the end when the first `k` of the players were welcomed. -/
def endReason (roster : List ConnId) (k : Nat) : FinishReason := if k < roster.length then .playerLeft else .normal

/-- The welcomes to the first `k` of the players and the notices to those told. -/
def transcript (roster : List ConnId) (k : Nat) (told : List ConnId) : List (ConnId × Message) :=
  (roster.take k).map (fun p => (p, .welcome p)) ++ told.map fun p => (p, .finish (endReason roster k))

theorem transcript_greet {roster : List ConnId} {i : Nat} {p : ConnId} (hp : roster[i]? = some p) :
    transcript roster i [] ++ [(p, .welcome p)] = transcript roster (i + 1) [] := by
  simp [transcript, List.take_add_one, hp]

theorem transcript_tell (roster told : List ConnId) (k : Nat) (p : ConnId) :
    transcript roster k told ++ [(p, .finish (endReason roster k))] = transcript roster k (told ++ [p]) := by
  simp [transcript]

/-- What was sent is a transcript. -/
def Transcribed (roster : List ConnId) (c : MatchConductor) : Prop :=
  ∃ k told, told.Sublist roster ∧ c.sent = transcript roster k told

/-- `Finish` has dealt with the first `i` of the players. -/
def Told (roster : List ConnId) (i : Nat) (c : MatchConductor) : Prop :=
  ∃ k told, told.Sublist (roster.take i) ∧ c.finishReason = endReason roster k ∧ c.sent = transcript roster k told

/-- The players from the `i`th on are in their places. -/
def From (roster : List ConnId) (i : Nat) (c : MatchConductor) : Prop :=
  c.players.drop i = (roster.map some).drop i

/-- All the players are there, and no reason was given for the end. -/
structure Whole (roster : List ConnId) (c : MatchConductor) : Prop where
  players : c.players = roster.map some
  reason : c.finishReason = .normal

/-- The game of `roster` when its thread is at a place. -/
def ScriptAt (roster : List ConnId) (c : MatchConductor) : GamePc → Prop
  | .unstarted => c.Whole roster ∧ c.sent = []
  | .head => c.Whole roster ∧ c.sent = [] ∨ c.stop = true ∧ ∃ i, c.Told roster i
  | .welcome i => c.Whole roster ∧ c.sent = transcript roster i []
  | .playerLeft => c.Whole roster ∧ ∃ k < roster.length, c.sent = transcript roster k []
  | .sleep => c.Whole roster ∧ ∃ k, roster.length ≤ k ∧ c.sent = transcript roster k []
  | .finish i _ => c.From roster i ∧ c.Told roster i
  | .notify i _ => c.From roster i ∧ c.Told roster i
  | .testStop i _ => c.From roster i ∧ c.Told roster (i + 1)
  | .pushLock i _ _ => c.From roster (i + 1) ∧ c.Told roster (i + 1)
  | .push i _ _ => c.From roster (i + 1) ∧ c.Told roster (i + 1)
  | .clear _ => ∃ i, c.Told roster i
  | .setStop _ => ∃ i, c.Told roster i
  | .returned => c.Transcribed roster

/-- What holds of a game of `roster` until its conductor is deleted. -/
def Script (roster : List ConnId) (c : MatchConductor) : Prop := c.ScriptAt roster c.pc

theorem Whole.player {roster : List ConnId} {c : MatchConductor} {i : Nat} (h : c.Whole roster) {p : ConnId}
    (hp : c.players[i]? = some (some p)) : roster[i]? = some p := by
  simpa [h.players] using hp

theorem Whole.seats {roster : List ConnId} {c : MatchConductor} (h : c.Whole roster) (i : Nat) : c.From roster i := by
  unfold From
  rw [h.players]

theorem From.player {roster : List ConnId} {c : MatchConductor} {i : Nat} (h : c.From roster i) {p : ConnId}
    (hp : c.players[i]? = some (some p)) : roster[i]? = some p := by
  have hi := congrArg (·[0]?) h
  simp only [List.getElem?_drop, Nat.add_zero, hp, List.getElem?_map] at hi
  simpa using hi.symm

theorem From.next {roster : List ConnId} {c : MatchConductor} {i : Nat} (h : c.From roster i) :
    c.From roster (i + 1) := by
  have hi := congrArg (List.drop 1) h
  simpa [From, List.drop_drop] using hi

theorem Told.next {roster : List ConnId} {c : MatchConductor} {i : Nat} (h : c.Told roster i) :
    c.Told roster (i + 1) := by
  obtain ⟨k, told, htold, hreason, hsent⟩ := h
  exact ⟨k, told, htold.trans (List.take_sublist_take_left (Nat.le_succ i)), hreason, hsent⟩

theorem Told.tell {roster : List ConnId} {c : MatchConductor} {i : Nat} {p : ConnId} (h : c.Told roster i)
    (hp : roster[i]? = some p) (pc : GamePc) : ((c.send p (.finish c.finishReason)).goto pc).Told roster (i + 1) := by
  obtain ⟨k, told, htold, hreason, hsent⟩ := h
  refine ⟨k, told ++ [p], ?_, hreason, ?_⟩
  · rw [List.take_add_one, hp]
    exact htold.append (List.Sublist.refl [p])
  · show c.sent ++ [(p, .finish c.finishReason)] = _
    rw [hreason, hsent, transcript_tell]

theorem Told.transcribed {roster : List ConnId} {c : MatchConductor} {i : Nat} (h : c.Told roster i) :
    c.Transcribed roster := by
  obtain ⟨k, told, htold, -, hsent⟩ := h
  exact ⟨k, told, htold.trans (List.take_sublist i roster), hsent⟩

theorem transcribed_of_silent {roster : List ConnId} {c : MatchConductor} (h : c.sent = []) : c.Transcribed roster :=
  ⟨0, [], List.nil_sublist roster, h⟩

theorem Script.transcribed {roster : List ConnId} {c : MatchConductor} (h : c.Script roster) :
    c.Transcribed roster := by
  unfold Script at h
  cases hpc : c.pc <;> rw [hpc] at h
  case unstarted => exact transcribed_of_silent h.2
  case head => exact h.elim (fun h => transcribed_of_silent h.2) fun h => h.2.elim fun _ ht => ht.transcribed
  case welcome i => exact ⟨i, [], List.nil_sublist roster, h.2⟩
  case playerLeft => exact h.2.elim fun k hk => ⟨k, [], List.nil_sublist roster, hk.2⟩
  case sleep => exact h.2.elim fun k hk => ⟨k, [], List.nil_sublist roster, hk.2⟩
  case finish | notify | testStop | pushLock | push => exact h.2.transcribed
  case clear | setStop => exact h.elim fun _ ht => ht.transcribed
  case returned => exact h

theorem Script.sent_welcome {roster : List ConnId} {c : MatchConductor} (h : c.Script roster) {i : Nat}
    (hpc : c.pc = .welcome i) : c.sent = transcript roster i [] := by
  rw [Script, hpc] at h
  exact h.2

theorem Script.sent_sleep {roster : List ConnId} {c : MatchConductor} (h : c.Script roster) (hpc : c.pc = .sleep) :
    c.sent = transcript roster roster.length [] := by
  rw [Script, hpc] at h
  obtain ⟨-, k, hk, hsent⟩ := h
  rw [hsent, transcript, transcript, List.take_of_length_le hk, List.take_length]
  rfl

/-! ## The steps of a game -/

theorem Script.step {closed alive : ConnId → Bool} {roster : List ConnId} {c c' : MatchConductor} {e : Effect}
    (h : c.Script roster) (hstep : c.step closed alive = some (c', e)) : c'.Script roster := by
  have hhere : c.ScriptAt roster c.pc := h
  cases step_cases hstep with
  | fails => exact h
  | stopped place stop => exact h.transcribed
  | begins place stop =>
    rw [place] at hhere
    rcases hhere with ⟨hw, hs⟩ | ⟨hstop, -⟩
    · exact ⟨⟨hw.players, hw.reason⟩, hs⟩
    · exact absurd (stop.symm.trans hstop) (by simp)
  | welcomed i place past =>
    rw [place] at hhere
    obtain ⟨hw, hs⟩ := hhere
    refine ⟨⟨hw.players, hw.reason⟩, i, ?_, hs⟩
    simpa [hw.players] using past
  | greets i p place player live =>
    rw [place] at hhere
    obtain ⟨hw, hs⟩ := hhere
    refine ⟨⟨hw.players, hw.reason⟩, ?_⟩
    show c.sent ++ [(p, .welcome p)] = _
    rw [hs, transcript_greet (hw.player player)]
  | misses i p place player gone =>
    rw [place] at hhere
    obtain ⟨hw, hs⟩ := hhere
    exact ⟨⟨hw.players, hw.reason⟩, i, (List.getElem?_eq_some_iff.mp (hw.player player)).1, hs⟩
  | leaves place =>
    rw [place] at hhere
    obtain ⟨hw, k, hk, hs⟩ := hhere
    exact ⟨hw.seats 0, k, [], List.nil_sublist _, (if_pos hk).symm, hs⟩
  | wakes place =>
    rw [place] at hhere
    obtain ⟨hw, k, hk, hs⟩ := hhere
    exact ⟨hw.seats 0, k, [], List.nil_sublist _, hw.reason.trans (if_neg (Nat.not_lt.mpr hk)).symm, hs⟩
  | finished i left place past =>
    rw [place] at hhere
    exact ⟨i, hhere.2⟩
  | skips i left p place player shut =>
    rw [place] at hhere
    exact ⟨hhere.1.next, hhere.2.next⟩
  | meets i left p place player opened =>
    rw [place] at hhere
    exact hhere
  | notifies i left p place player live =>
    rw [place] at hhere
    exact ⟨hhere.1, hhere.2.tell (hhere.1.player player) _⟩
  | cannotNotify i left p place player gone =>
    rw [place] at hhere
    exact ⟨hhere.1, hhere.2.next⟩
  | keeps i left place stop =>
    rw [place] at hhere
    exact ⟨hhere.1.next, hhere.2⟩
  | moves i left p place player stop =>
    rw [place] at hhere
    have hset : (c.players.set i none).drop (i + 1) = c.players.drop (i + 1) :=
      List.drop_set_of_lt (Nat.lt_succ_self i)
    exact ⟨hset.trans hhere.1.next, hhere.2⟩
  | locks i left p place =>
    rw [place] at hhere
    exact hhere
  | pushes i left p place =>
    rw [place] at hhere
    exact hhere
  | clears left place =>
    rw [place] at hhere
    exact hhere
  | setsStop left place =>
    rw [place] at hhere
    cases left
    · exact .inr ⟨rfl, hhere⟩
    · exact hhere.elim fun _ ht => ht.transcribed

theorem Script.forceFinish {roster : List ConnId} {c : MatchConductor} (h : c.Script roster) :
    c.forceFinish.Script roster := by
  have hhere : c.ScriptAt roster c.pc := h
  show c.forceFinish.ScriptAt roster c.pc
  cases hpc : c.pc <;> rw [hpc] at hhere
  case head => exact hhere.imp (fun h => ⟨⟨h.1.players, h.1.reason⟩, h.2⟩) fun h => ⟨rfl, h.2⟩
  case unstarted | welcome | playerLeft | sleep => exact ⟨⟨hhere.1.players, hhere.1.reason⟩, hhere.2⟩
  all_goals exact hhere

end MatchConductor

/-! ## The games of the program -/

/-- The players that `CreateMatchConductor` was called with, until they are in a
conductor. -/
def CreatePc.players : CreatePc → Option (List (Option ConnId))
  | .testFinish ps => some ps
  | .lockCleanUp ps => some ps
  | .cleanUp ps _ => some ps
  | .unlockCleanUp ps => some ps
  | .construct ps => some ps
  | _ => none

namespace MatchConductorManager

/-- The call that is under way is about to be refused, or was: the program is
told to end. -/
def Refuses (m : MatchConductorManager) : Prop :=
  m.finishRequested = true ∧ (m.create.players = none ∨ ∃ ps, m.create = .testFinish ps)

/-- The groups are those of the games made, and the one in hand. -/
def Passed (m : MatchConductorManager) (groups : List (List (Option ConnId))) : Prop :=
  (∃ done, done.length = m.made ∧ groups = done ++ m.create.players.toList) ∨ m.Refuses

/-- `i` is a game of the `i`th group. -/
def GameOf (m : MatchConductorManager) (groups : List (List (Option ConnId))) (i : GameId) : Prop :=
  ∃ roster, groups[i]? = some (roster.map some) ∧ (m.conductors i).Transcribed roster ∧
    ((m.conductors i).destroyed = false → (m.conductors i).Script roster)

/-- The games that were made are those of the groups, in order, as far as the
program was not told to end. -/
structure Scripted (m : MatchConductorManager) (groups : List (List (Option ConnId))) : Prop where
  passed : m.Passed groups
  games : ∀ i < m.made, m.GameOf groups i

variable {m m' : MatchConductorManager} {groups : List (List (Option ConnId))}

theorem not_refuses {ps : List (Option ConnId)} (hps : m.create.players = some ps)
    (hne : ∀ qs, m.create ≠ .testFinish qs) : ¬ m.Refuses := by
  rintro ⟨-, hnone | ⟨qs, hqs⟩⟩
  · exact absurd (hps.symm.trans hnone) (by simp)
  · exact hne qs hqs

theorem Passed.same (h : m.Passed groups) (hmade : m'.made = m.made)
    (hplayers : m'.create.players = m.create.players) (hkeep : m.Refuses → m'.Refuses) : m'.Passed groups := by
  refine h.imp (fun hdone => ?_) hkeep
  rwa [hmade, hplayers]

theorem Scripted.initial : initial.Scripted [] :=
  ⟨.inl ⟨[], rfl, rfl⟩, fun _ h => absurd h (Nat.not_lt_zero _)⟩

/-- The next group is handed over. -/
theorem Scripted.call (h : m.Scripted groups) (hidle : m.create = .idle) (ps : List (Option ConnId)) :
    { m with create := .testFinish ps : MatchConductorManager }.Scripted (groups ++ [ps]) := by
  refine ⟨?_, fun i hi => ?_⟩
  · rcases h.passed with ⟨done, hdone, hgroups⟩ | hrefuses
    · refine .inl ⟨done, hdone, ?_⟩
      rw [hgroups, hidle]
      simp [CreatePc.players]
    · exact .inr ⟨hrefuses.1, .inr ⟨ps, rfl⟩⟩
  · obtain ⟨roster, hgroup, hrest⟩ := h.games i hi
    exact ⟨roster, by rw [List.getElem?_append_left (List.getElem?_eq_some_iff.mp hgroup).1, hgroup], hrest⟩

/-- The conductors stand still. -/
theorem Scripted.same (h : m.Scripted groups) (hconductors : m'.conductors = m.conductors) (hmade : m'.made = m.made)
    (hpassed : m'.Passed groups) : m'.Scripted groups := by
  refine ⟨hpassed, fun i hi => ?_⟩
  unfold GameOf
  rw [hconductors]
  exact h.games i (hmade ▸ hi)

/-- One conductor moves on. -/
theorem Scripted.setConductor {g : GameId} {c : MatchConductor} (h : m.Scripted groups)
    (hc : ∀ roster, (m.conductors g).Transcribed roster →
      ((m.conductors g).destroyed = false → (m.conductors g).Script roster) →
      c.Transcribed roster ∧ (c.destroyed = false → c.Script roster)) : (m.setConductor g c).Scripted groups := by
  refine ⟨h.passed, fun i hi => ?_⟩
  obtain ⟨roster, hgroup, htranscribed, hscript⟩ := h.games i hi
  refine ⟨roster, hgroup, ?_⟩
  by_cases hg : i = g
  · subst hg
    simpa [MatchConductorManager.setConductor] using hc roster htranscribed hscript
  · simpa [MatchConductorManager.setConductor, hg] using And.intro htranscribed hscript

theorem Scripted.delete (h : m.Scripted groups) (o : Option GameId) : (m.delete o).Scripted groups := by
  cases o with
  | none => exact h
  | some g =>
    refine h.setConductor fun roster htranscribed _ => ⟨htranscribed, fun hd => ?_⟩
    exact absurd hd (by simp [MatchConductor.destroy])

theorem Scripted.erase {ps : List (Option ConnId)} {e : ErasePc} (h : m.Scripted groups)
    (hcreate : m.create = .cleanUp ps e) (hstep : m.eraseStep ps e = some (.ok m')) : m'.Scripted groups := by
  have hgoes : ¬ m.Refuses := not_refuses (by rw [hcreate]; rfl) (by simp [hcreate])
  have hpassed {m' : MatchConductorManager} (hmade : m'.made = m.made) (hps : m'.create.players = some ps) :
      m'.Passed groups :=
    h.passed.same hmade (by rw [hps, hcreate]; rfl) fun hr => absurd hr hgoes
  have hdelete (o : Option GameId) : (m.delete o).made = m.made := by cases o <;> rfl
  cases eraseStep_cases hstep with
  | moveConductor r i target source =>
    exact (h.delete target.conductor).same rfl rfl (hpassed (hdelete target.conductor) rfl)
  | deleteTail r j slot => exact (h.delete slot.conductor).same rfl rfl (hpassed (hdelete slot.conductor) rfl)
  | _ => exact h.same rfl rfl (hpassed rfl rfl)

theorem exists_roster : ∀ {ps : List (Option ConnId)}, (∀ p ∈ ps, p.isSome = true) →
    ∃ roster : List ConnId, roster.map some = ps
  | [], _ => ⟨[], rfl⟩
  | p :: ps, h => by
    obtain ⟨x, rfl⟩ := Option.isSome_iff_exists.mp (h p List.mem_cons_self)
    obtain ⟨xs, rfl⟩ := exists_roster fun q hq => h q (List.mem_cons_of_mem _ hq)
    exact ⟨x :: xs, rfl⟩

theorem Scripted.create (hinv : m.Inv) (h : m.Scripted groups) (hstep : m.createStep = some (.ok m')) :
    m'.Scripted groups := by
  have hgoes {ps : List (Option ConnId)} (hps : m.create.players = some ps) (hne : ∀ qs, m.create ≠ .testFinish qs) :
      m.Refuses → m'.Refuses := fun hr => absurd hr (not_refuses hps hne)
  cases createStep_cases hstep with
  | refuse ps place requested => exact h.same rfl rfl (.inr ⟨requested, .inl rfl⟩)
  | accept ps place accepting =>
    refine h.same rfl rfl (h.passed.same rfl (by rw [place]; rfl) fun hr => ?_)
    exact absurd (accepting.symm.trans hr.1) (by simp)
  | lockCleanUp ps place =>
    exact h.same rfl rfl (h.passed.same rfl (by rw [place]; rfl) (hgoes (by rw [place]; rfl) (by simp [place])))
  | cleanUp ps e m' place erases => exact h.erase place erases
  | unlockCleanUp ps place =>
    exact h.same rfl rfl (h.passed.same rfl (by rw [place]; rfl) (hgoes (by rw [place]; rfl) (by simp [place])))
  | construct ps c place constructs =>
    have hnot : ¬ m.Refuses := not_refuses (by rw [place]; rfl) (by simp [place])
    obtain ⟨done, hdone, hgroups⟩ := h.passed.resolve_right hnot
    simp only [place, CreatePc.players, Option.toList_some] at hgroups
    obtain ⟨hall, rfl⟩ := construct_ok constructs
    obtain ⟨roster, rfl⟩ := exists_roster hall
    refine ⟨.inl ⟨groups, ?_, (List.append_nil groups).symm⟩, fun i hi => ?_⟩
    · rw [hgroups, List.length_append, hdone]
      rfl
    · by_cases hg : i = m.made
      · subst hg
        refine ⟨roster, by rw [hgroups, ← hdone, List.getElem?_concat_length], ?_, fun _ => ?_⟩
        · exact MatchConductor.transcribed_of_silent (by simp [MatchConductorManager.setConductor])
        · simp only [MatchConductorManager.setConductor, Function.update_self]
          exact ⟨⟨rfl, rfl⟩, rfl⟩
      · have hlt : i < m.made := (Nat.lt_succ_iff_lt_or_eq.mp hi).resolve_right hg
        simpa [GameOf, MatchConductorManager.setConductor, hg] using h.games i hlt
  | start g place =>
    have hstarted : (m.setConductor g ((m.conductors g).goto .head)).Scripted groups := by
      refine h.setConductor fun roster htranscribed hscript => ⟨htranscribed, fun hd => ?_⟩
      have hhere := hscript hd
      rw [MatchConductor.Script, hinv.starting g place] at hhere
      exact .inl ⟨⟨hhere.1.players, hhere.1.reason⟩, hhere.2⟩
    exact hstarted.same rfl rfl (h.passed.same rfl (by rw [place]; rfl) fun hr => ⟨hr.1, .inl rfl⟩)
  | lockRegister g place =>
    exact h.same rfl rfl (h.passed.same rfl (by rw [place]; rfl) fun hr => ⟨hr.1, .inl rfl⟩)
  | register g place =>
    exact h.same rfl rfl (h.passed.same rfl (by rw [place]; rfl) fun hr => ⟨hr.1, .inl rfl⟩)

/-- `End` makes no call go through that was refused. -/
theorem endStep_refuses (hstep : m.endStep = some (.ok m')) (hr : m.Refuses) : m'.Refuses := by
  cases endStep_cases hstep with
  | setFlag => exact ⟨rfl, hr.2⟩
  | _ => exact hr

theorem Scripted.finish (h : m.Scripted groups) (hstep : m.endStep = some (.ok m')) : m'.Scripted groups := by
  obtain ⟨-, hcreate, hmade, hc⟩ := endStep_ok hstep
  have hpassed : m'.Passed groups := h.passed.same hmade (by rw [hcreate]) (endStep_refuses hstep)
  rcases hc with hc | ⟨g, -, hc⟩
  · exact h.same hc hmade hpassed
  · have hforced : (m.setConductor g (m.conductors g).forceFinish).Scripted groups :=
      h.setConductor fun roster htranscribed hscript => ⟨htranscribed, fun hd => (hscript hd).forceFinish⟩
    exact hforced.same hc hmade hpassed

end MatchConductorManager

namespace Server

/-- The groups that `AssembleGame` has taken, as `CreateMatchConductor` is given
them. -/
def groups (s : Server) : List (List (Option ConnId)) :=
  s.matchMaker.assembled.map fun group => group.map (Option.map Waiting.id)

def Scripted (s : Server) : Prop := s.manager.Scripted s.groups

variable {s s' : Server}

theorem Scripted.same (h : s.Scripted) (hmanager : s'.manager = s.manager)
    (hassembled : s'.matchMaker.assembled = s.matchMaker.assembled) : s'.Scripted := by
  unfold Scripted groups
  rw [hmanager, hassembled]
  exact h

theorem CallbackStep.scripted {c : ConnId} (h : s.Scripted) (hstep : CallbackStep s c s') : s'.Scripted := by
  refine h.same hstep.frame.2.2 ?_
  cases hstep with
  | move pc pc' op d place walk free data =>
    cases data with
    | scanBuffer rest n matchMaker scanned => rw [MatchMaker.onConnectionClosed_ok scanned]
    | _ => rfl
  | _ => rfl

theorem MakerStep.scripted (hl : s.Linked) (h : s.Scripted) (hstep : MakerStep s s') : s'.Scripted := by
  cases hstep with
  | move pc pc' op d place walk free data =>
    cases data with
    | quiet => exact h
    | fill => exact h.same rfl (MatchMaker.fill_history s.lobby s.matchMaker).2.2.2
    | assemble players matchMaker full taken =>
      rw [MatchMaker.assembleGame_of_full full] at taken
      obtain ⟨rfl, rfl⟩ := Prod.mk.inj (Except.ok.inj taken)
      unfold Scripted groups
      rw [List.map_append]
      exact MatchConductorManager.Scripted.call h (hl.idle (by simp [place])) _
  | create manager place created => exact MatchConductorManager.Scripted.create hl.inv h created
  | _ => exact h

theorem MainStep.scripted (h : s.Scripted) (hstep : MainStep s s') : s'.Scripted := by
  cases hstep with
  | move pc pc' op d place walk free data =>
    cases data with
    | endManager => exact MatchConductorManager.Scripted.same h rfl rfl (h.passed.same rfl rfl id)
    | _ => exact h
  | finish manager rest place finished => exact MatchConductorManager.Scripted.finish h finished
  | fails => exact h

theorem GameStep.scripted {g : GameId} (h : s.Scripted) (hstep : GameStep s g s') : s'.Scripted := by
  cases hstep with
  | move c e op lobby stepped live free data =>
    refine MatchConductorManager.Scripted.setConductor h fun roster _ hscript => ?_
    have hnext := (hscript live).step stepped
    exact ⟨hnext.transcribed, fun _ => hnext⟩
  | fails => exact h

theorem Scripted.step {a : Action} (hl : s.Linked) (h : s.Scripted) (hstep : s.step a = some s') : s'.Scripted := by
  cases (step_cases hstep).2 with
  | main _ hs => exact hs.scripted h
  | maker _ hs => exact hs.scripted hl h
  | callback c _ hs => exact hs.scripted h
  | game g _ hs => exact hs.scripted h
  | _ => exact h

/-- **What the players are sent.** In every run each game that was made, of number
`i`, is one of the `i`th group that a game was asked for, and what it has sent is a
transcript of that group: as far as it has come while it welcomes the players, and
with all of them welcomed when it sleeps. -/
theorem sent_eq_transcript {as : List Action} {s : Server} (hrun : Transition.run step initial as = some s)
    {i : GameId} (hi : i < s.manager.made) :
    ∃ roster, (QueueEvent.groups (queueTrace as))[i]? = some (roster.map some) ∧
      (∃ k told, told.Sublist roster ∧ (s.manager.conductors i).sent = MatchConductor.transcript roster k told) ∧
      ((s.manager.conductors i).destroyed = false →
        (∀ j, (s.manager.conductors i).pc = .welcome j →
          (s.manager.conductors i).sent = MatchConductor.transcript roster j []) ∧
        ((s.manager.conductors i).pc = .sleep →
          (s.manager.conductors i).sent = MatchConductor.transcript roster roster.length [])) := by
  have hall : Transition.Always step (fun s => s.Linked ∧ s.Scripted) initial as :=
    Transition.always_of_invariant (fun _ _ _ h hs => ⟨h.1.step hs, h.2.step h.1 hs⟩) ⟨.initial, .initial⟩ as
  obtain ⟨roster, hgroup, htranscribed, hscript⟩ := (hall.of_run hrun).2.games i hi
  have hgroups : s.groups = QueueEvent.groups (queueTrace as) := (traced hrun).created
  exact ⟨roster, hgroups ▸ hgroup, htranscribed, fun hd => ⟨fun _ hpc => (hscript hd).sent_welcome hpc,
    (hscript hd).sent_sleep⟩⟩

theorem sent_eq_transcript_finishing :
    ∃ (s : Server) (roster : List ConnId), Transition.run step initial finishingRun = some s ∧
      (QueueEvent.groups (queueTrace finishingRun))[0]? = some (roster.map some) ∧
      ∃ k told, told.Sublist roster ∧ (s.manager.conductors 0).sent = MatchConductor.transcript roster k told := by
  have hmade : (Transition.run step initial finishingRun).any (fun s => decide (0 < s.manager.made)) = true := by
    decide +kernel
  obtain ⟨s, hrun, hpos⟩ := (Option.any_eq_true _ _).mp hmade
  obtain ⟨roster, hgroup, hsent, -⟩ := sent_eq_transcript hrun (of_decide_eq_true hpos)
  exact ⟨s, roster, hrun, hgroup, hsent⟩

end Server

end PokerEngine
