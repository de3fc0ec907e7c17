/-
The end of the process is safe: nothing that `~ServerManager` has destroyed is
used again, in any interleaving with the games that are still under way when
`End` returns (`destroyed_unused`).
-/
import Mathlib.Data.List.Infix
import PokerEngine.Faults
import PokerEngine.Process
import PokerEngine.Progress
import PokerEngine.Shutdown

namespace PokerEngine

open Slot (full pairs)

/-! ## What `End` leaves behind -/

namespace MatchConductorManager

/-- The clean-up has assigned another conductor over that of `g`, and not yet
joined its thread. -/
def Awaits (m : MatchConductorManager) (g : GameId) : Prop :=
  ∃ ps r i slot, m.create = .cleanUp ps (.moveThread r i) ∧ m.matchConductors[r]? = some slot ∧ slot.thread = some g

/-- A game whose conductor is deleted has returned, or is the one that the
clean-up waits for. -/
def DeletedAwaited (m : MatchConductorManager) : Prop :=
  ∀ g, (m.conductors g).destroyed = true → (m.conductors g).pc = .returned ∨ m.Awaits g

theorem DeletedAwaited.initial : MatchConductorManager.initial.DeletedAwaited := by
  intro g hg
  change false = true at hg
  simp at hg

theorem DeletedAwaited.outlived {m : MatchConductorManager} (h : m.DeletedAwaited)
    (hcreate : ∀ ps r i, m.create ≠ .cleanUp ps (.moveThread r i)) : m.Outlived := by
  intro g hg
  refine (h g hg).resolve_right ?_
  rintro ⟨ps, r, i, slot, hc, -⟩
  exact hcreate ps r i hc

/-- Steps that move no pair: the games only come nearer their end. -/
theorem DeletedAwaited.advance {m m' : MatchConductorManager} (h : m.DeletedAwaited)
    (hslots : m'.matchConductors = m.matchConductors) (hcreate : m'.create = m.create)
    (hadv : ∀ g, Advances (m.conductors g) (m'.conductors g)) : m'.DeletedAwaited := by
  intro g hg
  rcases h g ((hadv g).destroyed ▸ hg) with hreturned | ⟨ps, r, i, slot, hc, hslot, hthread⟩
  · exact .inl ((hadv g).returned hreturned)
  · exact .inr ⟨ps, r, i, slot, hcreate.trans hc, hslots ▸ hslot, hthread⟩

/-- A deletion puts at most the deleted game's thread on the list. -/
theorem DeletedAwaited.delete {m m' : MatchConductorManager} {o : Option GameId} (h : m.Outlived)
    (hconductors : m'.conductors = (m.delete o).conductors)
    (hdeleted : ∀ g, o = some g → (m.conductors g).pc = .returned ∨ m'.Awaits g) : m'.DeletedAwaited := by
  intro g hg
  have hpc : (m'.conductors g).pc = (m.conductors g).pc := hconductors ▸ (delete_advances m o g).2
  rw [hpc]
  by_cases ho : o = some g
  · exact hdeleted g ho
  · rw [hconductors, delete_conductors, if_neg ho] at hg
    exact .inl (h g hg)

theorem Condemned.full {m : MatchConductorManager} {slot : Slot} {g : GameId} (h : m.Condemned slot)
    (hg : slot.conductor = some g) : slot = Slot.full g := by
  rcases h with rfl | ⟨g', rfl, -⟩
  · cases hg
  · rw [Option.some.inj hg]

theorem DeletedAwaited.erase {m m' : MatchConductorManager} {ps : List (Option ConnId)} {e : ErasePc}
    (hinv : m.Inv) (h : m.DeletedAwaited) (hcreate : m.create = .cleanUp ps e)
    (hstep : m.eraseStep ps e = some (.ok m')) : m'.DeletedAwaited := by
  have hlayout := hinv.layout
  unfold Layout at hlayout
  rw [hcreate] at hlayout
  have houtlived (hne : ∀ r i, e ≠ .moveThread r i) : m.Outlived := h.outlived fun ps' r i hc => by
    rw [hcreate] at hc
    injection hc with _ he
    exact hne r i he
  have hsame (hne : ∀ r i, e ≠ .moveThread r i) (hconductors : m'.conductors = m.conductors) :
      m'.DeletedAwaited := fun g hg => by
    rw [hconductors] at hg ⊢
    exact .inl (houtlived hne g hg)
  cases eraseStep_cases hstep with
  | found | find | scanned | scan | erased | joinTail => exact hsame (by simp) rfl
  | moveConductor r i target source hr hi =>
    obtain ⟨kept, old, gap, g', rest, hslots, hgap, -, rfl, rfl⟩ := hlayout
    have hold : old = target := by
      rw [hslots, ← length_pairs kept, getElem?_mid] at hr
      exact Option.some.inj hr
    refine .delete (houtlived (by simp)) (o := target.conductor) rfl fun g hg => .inr ?_
    have hfull := (hgap old List.mem_cons_self).full (hold ▸ hg)
    refine ⟨ps, kept.length, kept.length + 1 + gap.length, ⟨source.conductor, some g⟩, rfl, ?_, rfl⟩
    have hlen : kept.length < m.matchConductors.length := (List.getElem?_eq_some_iff.mp hr).1
    have hdelete : (m.delete target.conductor).matchConductors = m.matchConductors := by cases target.conductor <;> rfl
    simp only [setSlot, hdelete]
    rw [List.getElem?_set_ne (by omega), List.getElem?_set_self hlen, ← hold, hfull]
    rfl
  | moveThread r i target source hr hi joined =>
    intro g hg
    rcases h g hg with hreturned | ⟨ps', r', i', slot, hc, hslot, hthread⟩
    · exact .inl hreturned
    · rw [hcreate] at hc
      injection hc with _ he
      injection he with hr' _
      rw [← hr', hr] at hslot
      rw [Option.some.inj hslot, hthread] at joined
      have hreturned : (m.conductors g).pc = .returned := by simpa [MatchConductorManager.joined] using joined
      exact .inl hreturned
  | deleteTail r j slot next =>
    obtain ⟨kept, gone, old, gap, hslots, -, hgap, -, hreturned, rfl, rfl⟩ := hlayout
    have hold : old = slot := by
      rw [hslots, ← List.append_assoc, ← length_pairs kept, ← List.length_append, getElem?_mid] at next
      exact Option.some.inj next
    refine .delete (houtlived (by simp)) (o := slot.conductor) rfl fun g hg => .inl ?_
    exact hreturned g ((hgap old List.mem_cons_self).full (hold ▸ hg))

theorem DeletedAwaited.create {m m' : MatchConductorManager} (hinv : m.Inv) (h : m.DeletedAwaited)
    (hstep : m.createStep = some (.ok m')) : m'.DeletedAwaited := by
  have houtlived (hne : ∀ ps e, m.create ≠ .cleanUp ps e) : m.Outlived := h.outlived fun ps r i => hne ps _
  cases createStep_cases hstep with
  | cleanUp ps e _ hcreate herase => exact h.erase hinv hcreate herase
  | construct ps c hcreate hc =>
    obtain ⟨-, rfl⟩ := construct_ok hc
    have ho := houtlived (by simp [hcreate])
    exact fun g => .inl ∘ forall_setConductor (fun _ c => c.destroyed = true → c.pc = .returned) (by simp) ho g
  | start g' hcreate =>
    have ho := houtlived (by simp [hcreate])
    have hlive := (hinv.pending g' (by simp [pending, hcreate])).2
    refine fun g => .inl ∘ forall_setConductor (fun _ c => c.destroyed = true → c.pc = .returned) ?_ ho g
    simp [MatchConductor.goto, hlive]
  | refuse ps hcreate => exact fun g hg => .inl (houtlived (by simp [hcreate]) g hg)
  | accept ps hcreate => exact fun g hg => .inl (houtlived (by simp [hcreate]) g hg)
  | lockCleanUp ps hcreate => exact fun g hg => .inl (houtlived (by simp [hcreate]) g hg)
  | unlockCleanUp ps hcreate => exact fun g hg => .inl (houtlived (by simp [hcreate]) g hg)
  | lockRegister g' hcreate => exact fun g hg => .inl (houtlived (by simp [hcreate]) g hg)
  | register g' hcreate => exact fun g hg => .inl (houtlived (by simp [hcreate]) g hg)

end MatchConductorManager

namespace Server

/-- No callback runs, and none can start. -/
structure Quiet (s : Server) : Prop where
  deaf : s.listening = false
  atRest : ∀ c, (s.callbacks c).atRest = true

/-- The server has been quiet since its `End`. -/
def QuietAfterEnd (s : Server) : Prop :=
  match s.main with
  | .ending [.matchConductorManager] => s.Quiet
  | .managerEnd _ => s.Quiet
  | .ending [] => s.Quiet
  | .ended => s.Quiet
  | _ => True

theorem quietAfterEnd_of_quiet {s : Server} (h : s.Quiet) : s.QuietAfterEnd := by
  unfold QuietAfterEnd
  split <;> first | exact h | trivial

/-- What the other threads keep. -/
theorem QuietAfterEnd.keep {s s' : Server} (h : s.QuietAfterEnd) (hmain : s'.main = s.main)
    (hquiet : s.Quiet → s'.Quiet) : s'.QuietAfterEnd := by
  unfold QuietAfterEnd at h ⊢
  rw [hmain]
  split at h <;> first | exact hquiet h | trivial

theorem MainStep.quietAfterEnd {s s' : Server} (hl : s.Linked) (hplace : s.AtPlace) (h : s.QuietAfterEnd)
    (hstep : MainStep s s') : s'.QuietAfterEnd := by
  have hat := hplace.place
  have hkeeps {s' : Server} (hquiet : s.Quiet) (hlistening : s'.listening = s.listening)
      (hcallbacks : s'.callbacks = s.callbacks) : s'.QuietAfterEnd :=
    quietAfterEnd_of_quiet ⟨hlistening.trans hquiet.deaf, fun c => hcallbacks ▸ hquiet.atRest c⟩
  unfold QuietAfterEnd at h
  cases hstep with
  | move pc pc' op d place walk free data =>
    rw [place] at hat h
    cases walk with
    | serverStop rest =>
      cases data with
      | serverStop _ joined =>
        refine quietAfterEnd_of_quiet ⟨rfl, fun c => ?_⟩
        by_cases hc : c ∈ s.clients
        · exact joined c hc
        · show (s.callbacks c).atRest = true
          rw [hl.fresh c hc]
          rfl
    | endManager rest =>
      cases hat with
      | endManager => cases data; exact hkeeps h rfl rfl
    | managerEnd rest => cases data; exact hkeeps h rfl rfl
    | unlockEnd => cases data; exact hkeeps h rfl rfl
    | makerResetStop rest =>
      cases hat with
      | makerResetStop => cases data; exact trivial
    | lockStart | unlockStart | start | lockEnd | endMaker | endServer | makerJoin => cases data <;> exact trivial
  | finish manager rest place finished =>
    rw [place] at h
    exact hkeeps h rfl rfl
  | fails f failed => exact QuietAfterEnd.keep (s := s) h rfl fun hq => ⟨hq.deaf, hq.atRest⟩

/-- A callback at rest takes no step. -/
theorem Quiet.no_callback {s s' : Server} {c : ConnId} (h : s.Quiet) (hstep : CallbackStep s c s') : False := by
  have hrest := h.atRest c
  cases hstep with
  | move pc pc' op d place walk free data =>
    rw [place] at hrest
    cases walk <;> cases hrest
  | notFound place =>
    rw [place] at hrest
    cases hrest
  | scanFails observer rest f place =>
    rw [place] at hrest
    cases hrest

theorem Quiet.step {s s' : Server} {a : Action} (h : s.Quiet) (ha : a ≠ .run .main)
    (hstep : s.step a = some s') : s'.Quiet := by
  cases (step_cases hstep).2 with
  | connect c listening => exact absurd (h.deaf.symm.trans listening) (by simp)
  | disconnect c listening => exact absurd (h.deaf.symm.trans listening) (by simp)
  | socketGone => exact ⟨h.deaf, h.atRest⟩
  | quit => exact ⟨h.deaf, h.atRest⟩
  | main => exact absurd rfl ha
  | maker _ hs =>
    cases hs with
    | move pc pc' op d place walk free data => cases data <;> exact ⟨h.deaf, h.atRest⟩
    | _ => exact ⟨h.deaf, h.atRest⟩
  | game g _ hs => cases hs <;> exact ⟨h.deaf, h.atRest⟩
  | callback c _ hs => exact (h.no_callback hs).elim

theorem QuietAfterEnd.step {s s' : Server} {a : Action} (hl : s.Linked) (hplace : s.AtPlace)
    (h : s.QuietAfterEnd) (hstep : s.step a = some s') : s'.QuietAfterEnd := by
  have hquiet (ha : a ≠ .run .main) : s.Quiet → s'.Quiet := fun hq => hq.step ha hstep
  cases (step_cases hstep).2 with
  | main _ hs => exact hs.quietAfterEnd hl hplace h
  | quit waiting => exact trivial
  | connect => exact h.keep rfl (hquiet (by simp))
  | disconnect => exact h.keep rfl (hquiet (by simp))
  | socketGone => exact h.keep rfl (hquiet (by simp))
  | maker _ hs => exact h.keep hs.frame.1 (hquiet (by simp))
  | callback c _ hs => exact h.keep hs.frame.1 (hquiet (by simp))
  | game g _ hs => exact h.keep hs.frame.1 (hquiet (by simp))

theorem deletedAwaited_step {s s' : Server} {a : Action} (hl : s.Linked) (h : s.manager.DeletedAwaited)
    (hstep : s.step a = some s') : s'.manager.DeletedAwaited := by
  cases (step_cases hstep).2 with
  | connect => exact h
  | disconnect => exact h
  | socketGone => exact h
  | quit => exact h
  | main _ hs =>
    cases hs with
    | move pc pc' op d place walk free data =>
      cases data <;> exact h.advance rfl rfl fun _ => .refl _
    | finish manager rest place finished =>
      obtain ⟨hslots, hcreate, -, -⟩ := MatchConductorManager.endStep_ok finished
      exact h.advance hslots hcreate (MatchConductorManager.endStep_advances finished)
    | fails => exact h
  | maker _ hs =>
    cases hs with
    | move pc pc' op d place walk free data =>
      cases data with
      | assemble =>
        have hidle : s.manager.create = .idle := hl.idle (by simp [place])
        exact fun g hg => .inl (h.outlived (by simp [hidle]) g hg)
      | _ => exact h
    | create manager place created => exact h.create hl.inv created
    | _ => exact h
  | callback c _ hs => exact hs.frame.2.2 ▸ h
  | game g _ hs =>
    cases hs with
    | move c e op lobby stepped live free data => exact h.advance rfl rfl (hl.inv.conductorStep stepped).2
    | fails => exact h

/-- What holds of the program at every time, up to the end of the process. -/
structure Living (s : Server) : Prop where
  sound : s.Sound
  underway : s.Underway
  atPlace : s.AtPlace
  quiet : s.QuietAfterEnd
  deleted : s.manager.DeletedAwaited

theorem Living.initial : initial.Living := ⟨.initial, .initial, trivial, trivial, .initial⟩

theorem Living.step {s s' : Server} {a : Action} (h : s.Living) (hstep : s.step a = some s') : s'.Living :=
  have hl := h.sound.locks.linked
  ⟨h.sound.step hstep, h.underway.step hl hstep, h.atPlace.step hl hstep, h.quiet.step hl h.atPlace hstep,
    deletedAwaited_step hl h.deleted hstep⟩

/-- After `End` only games have steps left, and no conductor is deleted under
one of them. -/
structure Over (s : Server) : Prop where
  living : s.Living
  maker : s.maker = .returned
  idle : s.manager.create = .idle
  stopped : ∀ g < s.manager.made, (s.manager.conductors g).hasFinished = true
  slots : s.manager.Stopped s.manager.matchConductors
  quiet : s.Quiet
  outlived : s.manager.Outlived

theorem Living.over {s : Server} (h : s.Living) (hended : s.main = .ended) : s.Over := by
  have hplace := h.atPlace
  have hquiet := h.quiet
  unfold AtPlace at hplace
  unfold QuietAfterEnd at hquiet
  rw [hended] at hplace hquiet
  have hl := h.sound.locks.linked
  have hidle : s.manager.create = .idle := hl.idle (by simp [hplace.1])
  exact ⟨h, hplace.1, hidle, fun g hg => finished_of_stopped hl hplace.1 hplace.2 hg, hplace.2, hquiet,
    h.deleted.outlived (by simp [hidle])⟩

/-- Which actions are left then. -/
theorem Over.enabled {s s' : Server} {a : Action} (h : s.Over) (hended : s.main = .ended)
    (hstep : s.step a = some s') : (∃ c, a = .socketGone c) ∨ ∃ g, a = .run (.game g) := by
  cases (step_cases hstep).2 with
  | socketGone c => exact .inl ⟨c, rfl⟩
  | game g => exact .inr ⟨g, rfl⟩
  | connect c listening => exact absurd (h.quiet.deaf.symm.trans listening) (by simp)
  | disconnect c listening => exact absurd (h.quiet.deaf.symm.trans listening) (by simp)
  | quit waiting => exact absurd (hended.symm.trans waiting) (by simp)
  | main _ hs =>
    cases hs with
    | move pc pc' op d place walk free data =>
      rw [hended] at place
      rw [← place] at walk
      cases walk
    | finish manager rest place => exact absurd (hended.symm.trans place) (by simp)
    | fails f failed =>
      exact absurd failed (MatchConductorManager.endStep_ne_error h.living.sound.locks.linked.inv fun _ _ => by
        simp [h.idle])
  | maker _ hs =>
    cases hs with
    | move pc pc' op d place walk free data =>
      rw [h.maker] at place
      rw [← place] at walk
      cases walk
    | create manager place => exact absurd (h.maker.symm.trans place) (by simp)
    | created place => exact absurd (h.maker.symm.trans place) (by simp)
    | assembleFails f fails => exact absurd fails (MatchMaker.assembleGame_ne_error h.living.sound.buffer)
    | createFails f fails =>
      exact absurd fails (MatchConductorManager.createStep_ne_error h.living.sound.locks.linked.inv
        h.living.sound.seated)
  | callback c _ hs => exact (h.quiet.no_callback hs).elim

/-- A game that is under way has its conductor in the vector. -/
theorem Over.conductor_left {s : Server} {g : GameId} (h : s.Over)
    (hunstarted : (s.manager.conductors g).pc ≠ .unstarted) (hreturned : (s.manager.conductors g).pc ≠ .returned) :
    g ∈ s.manager.owned := by
  have hinv := h.living.sound.locks.linked.inv
  refine (hinv.owned g).mpr ⟨⟨?_, by simp [MatchConductorManager.pending, h.idle]⟩, ?_⟩
  · by_contra hge
    rw [hinv.unmade g (Nat.not_lt.mp hge)] at hunstarted
    exact hunstarted rfl
  · cases hd : (s.manager.conductors g).destroyed with
    | false => rfl
    | true => exact absurd (h.outlived g hd) hreturned

/-- Nothing faults any more. -/
theorem Over.goes_on {s s' : Server} {a : Action} (h : s.Over) (hended : s.main = .ended)
    (hstep : s.step a = some s') : s'.main = .ended ∧ s'.halted = none := by
  constructor
  · rcases h.enabled hended hstep with ⟨c, rfl⟩ | ⟨g, rfl⟩
    · cases (step_cases hstep).2
      exact hended
    · cases (step_cases hstep).2 with
      | game _ _ hs => exact hs.frame.1.trans hended
  · cases hf : s'.halted with
    | none => rfl
    | some f =>
      cases h.living.sound.halts hstep hf with
      | scan c observer rest place =>
        have hrest := h.quiet.atRest c
        rw [place] at hrest
        cases hrest
      | game g deleted running => exact absurd (h.outlived g deleted) running

/-- A step that faults leaves the main thread where it is. -/
theorem FaultStep.main {s s' : Server} {a : Action} {f : Fault} (hf : s.FaultStep a f)
    (hstep : s.step a = some s') : s'.main = s.main := by
  cases hf with
  | scan c =>
    cases (step_cases hstep).2 with
    | callback _ _ hs => exact hs.frame.1
  | game g =>
    cases (step_cases hstep).2 with
    | game _ _ hs => exact hs.frame.1

end Server

namespace Process

/-! ## The order of destruction -/

/-- What is still to be destroyed; a pair whose thread is joined counts whole. -/
def left (p : Process) : List Destruction :=
  match p.todo with
  | .deleteFirst :: todo => .joinFirst :: todo
  | todo => todo

/-- How far the destructor has come, and what that says of the observations, of
the lists of observers and of the games. -/
structure Order (p : Process) : Prop where
  suffix : p.left <:+ serverManagerDestructor
  gone : ∀ c, c ∈ p.gone ↔ .members c ∉ p.left
  managerObservation : ∀ o, p.managerObservation o = ⟨some o, decide (.managerObservation o ∈ p.left)⟩
  managerListed : ∀ o, o ∈ p.observers.serverManager ↔ .managerObservation o ∈ p.left
  closureObservation : ∀ o, p.closureObservation o = ⟨some o, decide (.closureObservation o ∈ p.left)⟩
  closureListed : ∀ o, o ∈ p.observers.closureHandler ↔ .closureObservation o ∈ p.left
  conductors : .joinFirst ∉ p.left → p.server.manager.matchConductors = []
  deleting : ∀ todo, p.todo = .deleteFirst :: todo → ∃ slot slots,
    p.server.manager.matchConductors = slot :: slots ∧ p.server.manager.joined slot.thread = true

theorem Order.initial : initial.Order where
  suffix := List.suffix_refl _
  gone c := by cases c <;> decide
  managerObservation o := by cases o <;> decide
  managerListed o := by cases o <;> decide
  closureObservation o := by cases o <;> decide
  closureListed o := by cases o <;> decide
  conductors h := absurd (by decide) h
  deleting todo h := nomatch h

theorem left_of_suffix {p : Process} {todo : List Destruction} (h : todo <:+ serverManagerDestructor)
    (htodo : p.todo = todo) : p.left = todo := by
  unfold left
  rw [htodo]
  split
  next hhead => exact absurd (h.subset List.mem_cons_self) (by decide)
  next => rfl

/-- A destructor's step that is done with the head of what was to come. -/
theorem Order.pop {p p' : Process} {d : Destruction} {todo : List Destruction} (h : p.Order)
    (hleft : p.left = d :: todo) (htodo : p'.todo = todo) :
    p'.left = todo ∧ p'.left <:+ serverManagerDestructor ∧
      ∀ e, e ∈ p'.left ↔ e ∈ p.left ∧ e ≠ d := by
  have hsuffix : d :: todo <:+ serverManagerDestructor := hleft ▸ h.suffix
  have htail : todo <:+ serverManagerDestructor := (List.suffix_cons d todo).trans hsuffix
  have heq := left_of_suffix htail htodo
  have hnodup : (d :: todo).Nodup := hsuffix.sublist.nodup (by decide)
  refine ⟨heq, heq ▸ htail, fun e => ?_⟩
  rw [heq, hleft, List.mem_cons]
  constructor
  · intro he
    exact ⟨.inr he, fun hed => (List.nodup_cons.mp hnodup).1 (hed ▸ he)⟩
  · intro ⟨he, hne⟩
    exact he.resolve_left hne

/-- What a step of the destructor does, when it does not go wrong. -/
inductive Destroys (p : Process) : Process → Prop
  | manager (o : ManagerObserver) (todo : List Destruction) (head : p.todo = .managerObservation o :: todo) :
    Destroys p { p with
      managerObservation := Function.update p.managerObservation o ⟨some o, false⟩
      observers := { p.observers with
        serverManager := ScopedObservation.removeObserver p.observers.serverManager o }
      todo }
  | closure (o : ClosureObserver) (todo : List Destruction) (head : p.todo = .closureObservation o :: todo) :
    Destroys p { p with
      closureObservation := Function.update p.closureObservation o ⟨some o, false⟩
      observers := { p.observers with
        closureHandler := ScopedObservation.removeObserver p.observers.closureHandler o }
      todo }
  | thread (todo : List Destruction) (head : p.todo = .thread :: todo) : Destroys p { p with todo }
  | joined (todo : List Destruction) (head : p.todo = .joinFirst :: todo)
      (none : p.server.manager.matchConductors = []) : Destroys p { p with todo }
  | join (todo : List Destruction) (slot : Slot) (slots : List Slot) (head : p.todo = .joinFirst :: todo)
      (first : p.server.manager.matchConductors = slot :: slots)
      (returned : p.server.manager.joined slot.thread = true) :
    Destroys p { p with todo := .deleteFirst :: todo }
  | delete (todo : List Destruction) (slot : Slot) (slots : List Slot) (head : p.todo = .deleteFirst :: todo)
      (first : p.server.manager.matchConductors = slot :: slots)
      (returned : p.server.manager.joined slot.thread = true) :
    Destroys p { p with server := p.server.withoutFirst slot slots, todo := .joinFirst :: todo }
  | members (c : Component) (todo : List Destruction) (head : p.todo = .members c :: todo) :
    Destroys p { p with gone := c :: p.gone, todo }

theorem left_cons {p : Process} {d : Destruction} {todo : List Destruction} (head : p.todo = d :: todo)
    (hd : d ≠ .deleteFirst) : p.left = d :: todo := by
  unfold left
  rw [head]
  split
  next hhead =>
    injection hhead with he _
    exact absurd he hd
  next => rfl

/-- What comes before another in the destructor is done first. -/
theorem Order.before {p : Process} {d e : Destruction} (h : p.Order) (hd : d ∈ p.left)
    (hbefore : ∀ todo ∈ serverManagerDestructor.tails, d ∈ todo → e ∈ todo) : e ∈ p.left :=
  hbefore _ ((List.mem_tails _ _).mpr h.suffix) hd

/-- An observation goes before its observable. -/
theorem Order.serverManager_present {p : Process} {o : ManagerObserver} (h : p.Order)
    (ho : .managerObservation o ∈ p.left) : .serverManager ∉ p.gone := fun hgone =>
  (h.gone .serverManager).mp hgone (h.before ho (by cases o <;> decide))

theorem Order.closureHandler_present {p : Process} {o : ClosureObserver} (h : p.Order)
    (ho : .closureObservation o ∈ p.left) : .closureHandler ∉ p.gone := fun hgone =>
  (h.gone .closureHandler).mp hgone (h.before ho (by cases o <;> decide))

/-- **The destructor does not go wrong**: what it resets observes, and what it
resets it at is there. -/
theorem Order.destroys {p p' : Process} (h : p.Order) (hover : p.server.Over)
    (hstep : p.destroyStep = some p') : p.Destroys p' := by
  unfold destroyStep at hstep
  split at hstep
  next => simp at hstep
  next o todo head =>
    have hmem : .managerObservation o ∈ p.left := by rw [left_cons head (by simp)]; exact List.mem_cons_self
    have hreset : (p.managerObservation o).reset p.observers.serverManager =
        .ok (⟨some o, false⟩, ScopedObservation.removeObserver p.observers.serverManager o) := by
      simp [h.managerObservation o, hmem, ScopedObservation.reset]
    rw [if_neg (h.serverManager_present hmem), hreset] at hstep
    split at hstep
    · exact Option.some.inj hstep ▸ .manager o todo head
    · simp at hstep
  next o todo head =>
    have hmem : .closureObservation o ∈ p.left := by rw [left_cons head (by simp)]; exact List.mem_cons_self
    have hreset : (p.closureObservation o).reset p.observers.closureHandler =
        .ok (⟨some o, false⟩, ScopedObservation.removeObserver p.observers.closureHandler o) := by
      simp [h.closureObservation o, hmem, ScopedObservation.reset]
    rw [if_neg (h.closureHandler_present hmem), hreset] at hstep
    split at hstep
    · exact Option.some.inj hstep ▸ .closure o todo head
    · simp at hstep
  next todo head =>
    rw [if_pos (.inr hover.maker)] at hstep
    exact Option.some.inj hstep ▸ .thread todo head
  next todo head =>
    split at hstep
    next hnone => exact Option.some.inj hstep ▸ .joined todo head hnone
    next slot slots hfirst =>
      split at hstep
      next hreturned => exact Option.some.inj hstep ▸ .join todo slot slots head hfirst hreturned
      next => simp at hstep
  next todo head =>
    obtain ⟨slot, slots, hfirst, hreturned⟩ := h.deleting todo head
    rw [hfirst] at hstep
    exact Option.some.inj hstep ▸ .delete todo slot slots head hfirst hreturned
  next c todo head => exact Option.some.inj hstep ▸ .members c todo head

theorem mem_removeObserver {O : Type} [DecidableEq O] {observers : List O} {o o' : O} :
    o' ∈ ScopedObservation.removeObserver observers o ↔ o' ∈ observers ∧ o' ≠ o := by
  simp [ScopedObservation.removeObserver]

/-- A step that leaves the order alone. -/
theorem Order.keep {p p' : Process} (h : p.Order) (hleft : p'.left = p.left) (hgone : p'.gone = p.gone)
    (hmanager : p'.managerObservation = p.managerObservation)
    (hclosure : p'.closureObservation = p.closureObservation) (hobservers : p'.observers = p.observers)
    (hconductors : .joinFirst ∉ p.left → p'.server.manager.matchConductors = [])
    (hdeleting : ∀ todo, p'.todo = .deleteFirst :: todo → ∃ slot slots,
      p'.server.manager.matchConductors = slot :: slots ∧ p'.server.manager.joined slot.thread = true) : p'.Order where
  suffix := hleft ▸ h.suffix
  gone := by rw [hleft, hgone]; exact h.gone
  managerObservation := by rw [hleft, hmanager]; exact h.managerObservation
  managerListed := by rw [hleft, hobservers]; exact h.managerListed
  closureObservation := by rw [hleft, hclosure]; exact h.closureObservation
  closureListed := by rw [hleft, hobservers]; exact h.closureListed
  conductors := hleft ▸ hconductors
  deleting := hdeleting

/-- A step that is done with one part of the destructor leaves the rest as it
was. -/
theorem Order.done {p p' : Process} {d : Destruction} {todo : List Destruction} (h : p.Order)
    (head : p.todo = d :: todo) (hd : d ≠ .deleteFirst) (htodo : p'.todo = todo)
    (hserver : p'.server = p.server)
    (hgone : ∀ c, c ∈ p'.gone ↔ c ∈ p.gone ∨ d = .members c)
    (hmanager : ∀ o, p'.managerObservation o =
      if d = .managerObservation o then ⟨some o, false⟩ else p.managerObservation o)
    (hmanagerListed : ∀ o, o ∈ p'.observers.serverManager ↔
      o ∈ p.observers.serverManager ∧ d ≠ .managerObservation o)
    (hclosure : ∀ o, p'.closureObservation o =
      if d = .closureObservation o then ⟨some o, false⟩ else p.closureObservation o)
    (hclosureListed : ∀ o, o ∈ p'.observers.closureHandler ↔
      o ∈ p.observers.closureHandler ∧ d ≠ .closureObservation o)
    (hconductors : d = .joinFirst → p.server.manager.matchConductors = []) : p'.Order := by
  obtain ⟨heq, hsuffix, hmem⟩ := h.pop (left_cons head hd) htodo
  refine ⟨hsuffix, fun c => ?_, fun o => ?_, fun o => ?_, fun o => ?_, fun o => ?_, fun hjoin => ?_,
    fun todo' htodo' => ?_⟩
  · rw [hgone, h.gone, hmem]
    by_cases hc : d = .members c
    · simp [hc]
    · simp [hc, Ne.symm hc]
  · rw [hmanager, h.managerObservation o]
    by_cases ho : d = .managerObservation o
    · simp [ho, hmem]
    · simp [ho, Ne.symm ho, hmem]
  · rw [hmanagerListed, h.managerListed, hmem]
    simp [eq_comm]
  · rw [hclosure, h.closureObservation o]
    by_cases ho : d = .closureObservation o
    · simp [ho, hmem]
    · simp [ho, Ne.symm ho, hmem]
  · rw [hclosureListed, h.closureListed, hmem]
    simp [eq_comm]
  · rw [hserver]
    by_cases hdj : d = .joinFirst
    · exact hconductors hdj
    · exact h.conductors fun hj => hjoin ((hmem _).mpr ⟨hj, Ne.symm hdj⟩)
  · rw [htodo] at htodo'
    rw [heq, htodo'] at hsuffix
    exact absurd (hsuffix.subset List.mem_cons_self) (by decide)

end Process

/-! ## The destruction of a pair -/

namespace MatchConductorManager

theorem withoutFirst_frame (m : MatchConductorManager) (slot : Slot) (slots : List Slot) :
    (m.withoutFirst slot slots).made = m.made ∧ (m.withoutFirst slot slots).create = m.create ∧
      (m.withoutFirst slot slots).finish = m.finish ∧
      (m.withoutFirst slot slots).conductorsMutex = m.conductorsMutex ∧
      (m.withoutFirst slot slots).conductors = (m.delete slot.conductor).conductors := by
  unfold withoutFirst
  cases slot.conductor <;> exact ⟨rfl, rfl, rfl, rfl, rfl⟩

/-- The games keep their flags and their places. -/
theorem withoutFirst_keeps (m : MatchConductorManager) (slot : Slot) (slots : List Slot) (g : GameId) :
    ((m.withoutFirst slot slots).conductors g).stop = (m.conductors g).stop ∧
      ((m.withoutFirst slot slots).conductors g).pc = (m.conductors g).pc := by
  rw [(withoutFirst_frame m slot slots).2.2.2.2]
  exact delete_advances m slot.conductor g

variable {m : MatchConductorManager} {slot : Slot} {slots : List Slot}

/-- The first of whole pairs is a game with its own thread. -/
theorem Inv.first (h : m.Inv) (hidle : m.create = .idle) (hfirst : m.matchConductors = slot :: slots) :
    ∃ g rest, slot = full g ∧ slots = pairs rest ∧ (g :: rest).Pairwise (· < ·) := by
  obtain ⟨kept, hslots, hord⟩ := h.whole (by simp [hidle])
  rw [hfirst] at hslots
  obtain _ | ⟨g, rest⟩ := kept
  · cases hslots
  · obtain ⟨rfl, rfl⟩ := List.cons.inj hslots
    exact ⟨g, rest, rfl, rfl, hord⟩

theorem Inv.withoutFirst (h : m.Inv) (hidle : m.create = .idle) (hfirst : m.matchConductors = slot :: slots)
    (hstopped : m.Stopped m.matchConductors) : (m.withoutFirst slot slots).Inv := by
  obtain ⟨hmade, hcreate, -, -, hconductors⟩ := withoutFirst_frame m slot slots
  obtain ⟨g, rest, rfl, rfl, hord⟩ := h.first hidle hfirst
  have hcondemned : m.Condemned (full g) := .inr ⟨g, rfl, hstopped (full g) (hfirst ▸ List.mem_cons_self) g rfl⟩
  refine h.delete hcondemned hconductors hmade ?_ ?_ ?_ ?_
  · unfold MatchConductorManager.pending
    rw [hcreate]
  · rw [hcreate, hidle]
    exact (by simp)
  · have howned : m.owned = g :: (m.withoutFirst (full g) (pairs rest)).owned := by
      rw [MatchConductorManager.owned, hfirst]
      rfl
    rw [howned]
    exact List.Perm.refl _
  · unfold Layout
    rw [hcreate, hidle]
    exact ⟨rest, rfl, (List.pairwise_cons.mp hord).2⟩

theorem Seated.withoutFirst (h : m.Seated) : (m.withoutFirst slot slots).Seated := by
  obtain ⟨-, hcreate, -, -, hconductors⟩ := withoutFirst_frame m slot slots
  refine ⟨fun g hg => ?_, ?_⟩
  · rw [hconductors, delete_conductors] at hg ⊢
    split
    next heq => simp [heq, MatchConductor.destroy] at hg
    next hne =>
      rw [if_neg hne] at hg
      exact h.games g hg
  · have hargument : (m.withoutFirst slot slots).argument = m.argument := by
      unfold MatchConductorManager.argument
      rw [hcreate]
    exact hargument ▸ h.argument

theorem Started.withoutFirst (h : m.Started) (hfirst : m.matchConductors = slot :: slots) :
    (m.withoutFirst slot slots).Started := by
  obtain ⟨-, hcreate, -⟩ := withoutFirst_frame m slot slots
  refine ⟨fun x hx g hg => ?_, fun g hg => ?_⟩
  · rw [(withoutFirst_keeps m slot slots g).2]
    exact h.threads x (hfirst ▸ List.mem_cons_of_mem _ hx) g hg
  · rw [(withoutFirst_keeps m slot slots g).2]
    exact h.pending g (hcreate ▸ hg)

theorem Outlived.withoutFirst (h : m.Outlived) (hreturned : ∀ g, slot.conductor = some g →
    (m.conductors g).pc = .returned) : (m.withoutFirst slot slots).Outlived := by
  intro g hg
  rw [(withoutFirst_keeps m slot slots g).2]
  rw [(withoutFirst_frame m slot slots).2.2.2.2, delete_conductors] at hg
  split at hg
  next heq => exact hreturned g heq
  next => exact h g hg

end MatchConductorManager

namespace Server

theorem LocksOk.withoutFirst {s : Server} {slot : Slot} {slots : List Slot} (h : s.LocksOk)
    (hinv : (s.manager.withoutFirst slot slots).Inv) : (s.withoutFirst slot slots).LocksOk := by
  obtain ⟨-, hcreate, hfinish, hmutex, -⟩ := MatchConductorManager.withoutFirst_frame s.manager slot slots
  have hkeeps := MatchConductorManager.withoutFirst_keeps s.manager slot slots
  have hheld : ∀ t, (s.withoutFirst slot slots).held t = s.held t := by
    intro t
    cases t with
    | main => simp only [held, Server.withoutFirst, hfinish]
    | maker => simp only [held, Server.withoutFirst, hcreate]
    | callback c => rfl
    | game g => simp only [held, Server.withoutFirst, (hkeeps g).2]
  have hholder : ∀ m, (s.withoutFirst slot slots).holder m = s.holder m := by
    intro m
    cases m <;> simp only [holder, Server.withoutFirst, hmutex]
  refine ⟨fun m t => ?_, ⟨hinv, fun hne => hcreate.trans (h.linked.idle hne), h.linked.fresh⟩, ?_⟩
  · simp only [hholder, hheld]
    exact h.owned m t
  · rw [show (s.withoutFirst slot slots).manager.finish = s.manager.finish from hfinish]
    exact h.ending

theorem Over.withoutFirst {s : Server} {slot : Slot} {slots : List Slot} (h : s.Over) (hended : s.main = .ended)
    (hfirst : s.manager.matchConductors = slot :: slots) (hreturned : s.manager.joined slot.thread = true) :
    (s.withoutFirst slot slots).Living := by
  have hsound := h.living.sound
  have hl := hsound.locks.linked
  obtain ⟨g, rest, rfl, rfl, -⟩ := hl.inv.first h.idle hfirst
  have houtlived : (s.withoutFirst (full g) (pairs rest)).manager.Outlived :=
    h.outlived.withoutFirst fun g' hg' => by
      obtain rfl : g = g' := Option.some.inj hg'
      simpa [MatchConductorManager.joined, full] using hreturned
  have hstopped : (s.withoutFirst (full g) (pairs rest)).manager.Stopped (pairs rest) := fun x hx g' hg' =>
    (MatchConductorManager.withoutFirst_keeps s.manager _ _ g').1.trans
      (h.slots x (hfirst ▸ List.mem_cons_of_mem _ hx) g' hg')
  have hplace : (s.withoutFirst (full g) (pairs rest)).AtPlace := by
    unfold AtPlace
    rw [show (s.withoutFirst (full g) (pairs rest)).main = .ended from hended]
    exact ⟨h.maker, hstopped⟩
  exact {
    sound := ⟨hsound.locks.withoutFirst (hl.inv.withoutFirst h.idle hfirst h.slots), ⟨hsound.entered.entered,
      hsound.entered.settled⟩, hsound.seated.withoutFirst, hsound.buffer⟩
    underway := ⟨h.living.underway.started.withoutFirst hfirst, fun rest' hmain =>
      absurd (hended.symm.trans hmain) (by simp)⟩
    atPlace := hplace
    quiet := quietAfterEnd_of_quiet ⟨h.quiet.deaf, h.quiet.atRest⟩
    deleted := fun g' hg' => .inl (houtlived g' hg') }

end Server

namespace Process

/-- What holds of the process at every time. -/
structure Inv (p : Process) : Prop where
  living : p.server.Living
  order : p.Order
  before : p.server.main ≠ .ended → p.todo = serverManagerDestructor
  halted : p.server.main = .ended → p.server.halted = none

theorem Inv.initial : initial.Inv := ⟨.initial, .initial, fun _ => rfl, fun _ => rfl⟩

/-- Until `End` has returned nothing is gone. -/
theorem Inv.none_gone {p : Process} (h : p.Inv) (hmain : p.server.main ≠ .ended) (c : Component) : c ∉ p.gone := by
  rw [h.order.gone, left_of_suffix (List.suffix_refl _) (h.before hmain), not_not]
  cases c <;> decide

theorem Destroys.order {p p' : Process} (h : p.Order) (hstep : p.Destroys p') : p'.Order := by
  cases hstep with
  | manager o todo head =>
    refine h.done head (by simp) rfl rfl (by simp) (fun o' => ?_) (fun o' => ?_) (by simp) (by simp) (by simp)
    · by_cases ho : o = o'
      · simp [ho]
      · simp [ho, Ne.symm ho]
    · simp [mem_removeObserver, eq_comm]
  | closure o todo head =>
    refine h.done head (by simp) rfl rfl (by simp) (by simp) (by simp) (fun o' => ?_) (fun o' => ?_) (by simp)
    · by_cases ho : o = o'
      · simp [ho]
      · simp [ho, Ne.symm ho]
    · simp [mem_removeObserver, eq_comm]
  | thread todo head => exact h.done head (by simp) rfl rfl (by simp) (by simp) (by simp) (by simp) (by simp) (by simp)
  | joined todo head none =>
    exact h.done head (by simp) rfl rfl (by simp) (by simp) (by simp) (by simp) (by simp) fun _ => none
  | members c todo head =>
    refine h.done head (by simp) rfl rfl (fun c' => ?_) (by simp) (by simp) (by simp) (by simp) (by simp)
    simp [or_comm, eq_comm]
  | join todo slot slots head first returned =>
    have hleft : p.left = .joinFirst :: todo := left_cons head (by simp)
    exact h.keep hleft.symm rfl rfl rfl rfl h.conductors fun _ _ => ⟨slot, slots, first, returned⟩
  | delete todo slot slots head first returned =>
    have hleft : p.left = .joinFirst :: todo := by rw [left, head]
    have hjoin : .joinFirst ∈ p.left := hleft ▸ List.mem_cons_self
    exact h.keep hleft.symm rfl rfl rfl rfl (fun hnot => absurd hjoin hnot) (by simp)

theorem Destroys.living {p p' : Process} (hover : p.server.Over) (hended : p.server.main = .ended)
    (hstep : p.Destroys p') : p'.server.Living ∧ p'.server.main = .ended ∧ p'.server.halted = p.server.halted := by
  cases hstep with
  | delete todo slot slots head first returned => exact ⟨hover.withoutFirst hended first returned, hended, rfl⟩
  | _ => exact ⟨hover.living, hended, rfl⟩

/-- What is used is there. -/
theorem Inv.uses_present {p : Process} {s : Server} {a : Server.Action} (h : p.Inv)
    (hstep : p.server.step a = some s) {c : Component} (hc : c ∈ p.server.uses a) : c ∉ p.gone := by
  by_cases hended : p.server.main = .ended
  · have hover := h.living.over hended
    rcases hover.enabled hended hstep with ⟨c', rfl⟩ | ⟨g, rfl⟩
    · exact absurd hc List.not_mem_nil
    · have hlobby : c = .lobby ∧ (p.server.manager.conductors g).pc ≠ .unstarted ∧
          (p.server.manager.conductors g).pc ≠ .returned := by
        simp only [Server.uses] at hc
        cases hpc : (p.server.manager.conductors g).pc <;> simp_all [GamePc.uses]
      obtain ⟨rfl, hunstarted, hreturned⟩ := hlobby
      intro hgone
      have hlobby := (h.order.gone _).mp hgone
      -- the games' threads are joined before the lobby goes
      have hjoined : .joinFirst ∉ p.left := fun hjoin => hlobby (h.order.before hjoin (by decide))
      have howned := hover.conductor_left hunstarted hreturned
      rw [MatchConductorManager.owned, h.order.conductors hjoined] at howned
      exact absurd howned List.not_mem_nil
  · exact h.none_gone hended c

theorem Inv.halted_step {p : Process} {s : Server} {a : Server.Action} (h : p.Inv)
    (hstep : p.server.step a = some s) (hended : s.main = .ended) : s.halted = none := by
  cases hf : s.halted with
  | none => rfl
  | some f =>
    have hmain := (h.living.sound.halts hstep hf).main hstep
    have hnone := ((h.living.over (hmain ▸ hended)).goes_on (hmain ▸ hended) hstep).2
    exact absurd (hf.symm.trans hnone) (by simp)

/-- The order of destruction, under the program's steps. -/
theorem Inv.order_step {p : Process} {s : Server} {a : Server.Action} (h : p.Inv)
    (hstep : p.server.step a = some s) : ({ p with server := s } : Process).Order := by
  by_cases hended : p.server.main = .ended
  · have hmanager : s.manager.matchConductors = p.server.manager.matchConductors ∧
        ∀ g, (p.server.manager.conductors g).pc = .returned → (s.manager.conductors g).pc = .returned := by
      rcases (h.living.over hended).enabled hended hstep with ⟨c, rfl⟩ | ⟨g, rfl⟩
      · cases (Server.step_cases hstep).2
        exact ⟨rfl, fun _ => id⟩
      · cases (Server.step_cases hstep).2 with
        | game _ _ hs =>
          cases hs with
          | move c e op lobby stepped live free data =>
            have hadv := (h.living.sound.locks.linked.inv.conductorStep stepped).2
            exact ⟨rfl, fun g' => (hadv g').returned⟩
          | fails => exact ⟨rfl, fun _ => id⟩
    refine h.order.keep rfl rfl rfl rfl rfl (fun hjoin => hmanager.1.trans (h.order.conductors hjoin))
      fun todo htodo => ?_
    obtain ⟨slot, slots, hfirst, hreturned⟩ := h.order.deleting todo htodo
    refine ⟨slot, slots, hmanager.1.trans hfirst, ?_⟩
    cases hthread : slot.thread with
    | none => rfl
    | some g =>
      rw [hthread] at hreturned
      simpa [MatchConductorManager.joined] using hmanager.2 g (by simpa [MatchConductorManager.joined] using hreturned)
  · have htodo := h.before hended
    have hjoin : .joinFirst ∈ p.left := by
      rw [left_of_suffix (List.suffix_refl _) htodo]
      decide
    refine h.order.keep rfl rfl rfl rfl rfl (fun hnot => absurd hjoin hnot) fun todo hdelete => ?_
    rw [show p.todo = serverManagerDestructor from htodo] at hdelete
    exact absurd (List.cons.inj hdelete).1 (by simp)

/-- A step is one of the destructor's, or one of the program's, and neither goes
wrong. -/
theorem Inv.step_cases {p p' : Process} {a : Server.Action} (h : p.Inv) (hstep : p.step a = some p') :
    (a = .run .main ∧ p.server.main = .ended ∧ p.Destroys p') ∨
      ∃ s, p.server.step a = some s ∧ p' = { p with server := s } := by
  unfold Process.step at hstep
  split at hstep
  next => simp at hstep
  next =>
    split at hstep
    next hmain => exact .inl ⟨hmain.1, hmain.2, h.order.destroys (h.living.over hmain.2) hstep⟩
    next =>
      obtain ⟨s, hs, hp⟩ := Option.map_eq_some_iff.mp hstep
      have hpresent : (p.server.uses a).any (· ∈ p.gone) = false := by
        simpa using fun c hc => h.uses_present hs hc
      rw [hpresent] at hp
      exact .inr ⟨s, hs, hp.symm⟩

theorem Inv.step {p p' : Process} {a : Server.Action} (h : p.Inv) (hstep : p.step a = some p') : p'.Inv := by
  rcases h.step_cases hstep with ⟨-, hmain, hdestroys⟩ | ⟨s, hs, rfl⟩
  · have hover := h.living.over hmain
    obtain ⟨hliving, hended, hnone⟩ := hdestroys.living hover hmain
    exact ⟨hliving, hdestroys.order h.order, fun hne => absurd hended hne, fun _ => hnone.trans (h.halted hmain)⟩
  · refine ⟨h.living.step hs, h.order_step hs, fun hne => h.before fun hended => hne ?_, h.halted_step hs⟩
    exact ((h.living.over hended).goes_on hended hs).1

/-- What makes the end of the process safe: components are destroyed once `End`
has returned, and then nothing faults, so that no assertion of a `Reset` fails,
no joinable thread is destroyed and no conductor is deleted under its thread. -/
structure Safe (p : Process) : Prop where
  afterEnd : p.gone ≠ [] → p.server.main = .ended
  faultless : p.server.main = .ended → p.server.halted = none
  used : ∀ a, (p.server.step a).isSome = true → ∀ c ∈ p.server.uses a, c ∉ p.gone
  -- no list of observers has one that is gone
  managerListed : ∀ o ∈ p.observers.serverManager, o.component ∉ p.gone
  closureListed : ∀ o ∈ p.observers.closureHandler, o.component ∉ p.gone

theorem Inv.safe {p : Process} (h : p.Inv) : p.Safe where
  afterEnd hgone := by
    by_contra hended
    obtain ⟨c, hc⟩ := List.exists_mem_of_ne_nil _ hgone
    exact h.none_gone hended c hc
  faultless := h.halted
  used a hstep c hc := by
    obtain ⟨s, hs⟩ := Option.isSome_iff_exists.mp hstep
    exact h.uses_present hs hc
  managerListed o ho hgone :=
    (h.order.gone _).mp hgone (h.order.before ((h.order.managerListed o).mp ho) (by cases o <;> decide))
  closureListed o ho hgone :=
    (h.order.gone _).mp hgone (h.order.before ((h.order.closureListed o).mp ho) (by cases o <;> decide))

/-- **The end of the process is safe**, whatever games are still under way when
`End` returns, in every interleaving of their threads with the destructor. -/
theorem destroyed_unused (as : List Server.Action) : Transition.Always step Safe initial as :=
  (Transition.always_of_invariant (fun _ _ _ h hs => h.step hs) .initial as).mono fun _ => Inv.safe

end Process

end PokerEngine
