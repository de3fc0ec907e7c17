/-
The calls of the message handler among the steps of the program: messages
handled one after the other are a run of the program, in which the thread of the
connection takes its steps alone (`Server.Alone`) and the main thread has
started the server.
-/
import PokerEngine.Messages

namespace PokerEngine

open Numerals

namespace Delivery

variable {κ : Type} {sid : κ → List Char} {d d' : Delivery κ} {k : κ} {n : ConnId}

/-- The steps of `OnNewConnectionEstablished`, taken alone. -/
theorem alone_opens {s : Server} (hhalted : s.halted = none) (hplace : s.callbacks n = .openTestStop)
    (hstop : s.stop = false) (hfree : ∀ m, s.locks m = none) (hclosed : s.closed n = false) :
    Server.Alone n s ((s.withConnection n).callbackTo n .opened) := by
  let s₁ := { s with connections := s.connections ++ [n] }
  let s₂ := { s₁ with lobby := s₁.lobby.push n }
  let locks₁ := Function.update s.locks .connections (some (.callback n))
  let locks₂ := Function.update s.locks .lobby (some (.callback n))
  have hflag : Function.update s.closed n false = s.closed := by rw [← hclosed, Function.update_eq_self]
  have hend : s.withConnection n = s₂ := by rw [Server.withConnection, hflag]
  have hlocks₁ : Function.update locks₁ .connections none = s.locks := by
    rw [Function.update_idem, ← hfree .connections, Function.update_eq_self]
  have hlocks₂ : Function.update locks₂ .lobby none = s.locks := by
    rw [Function.update_idem, ← hfree .lobby, Function.update_eq_self]
  have htest : s.callbackStep n = some (s.midway n .lockRegister s.locks) := by
    simp [Server.callbackStep, hplace, hstop, Server.midway, Server.callbackTo]
  have hlock : (s.midway n .lockRegister s.locks).callbackStep n = some (s.midway n .register locks₁) := by
    simp [Server.callbackStep, Server.midway_acquire _ _ (hfree .connections), locks₁]
  have hregister : (s.midway n .register locks₁).callbackStep n = some (s₁.midway n .lockPush s.locks) := by
    rw [← hlocks₁]
    simp [Server.callbackStep, Server.midway, Server.callbackTo, Server.release, s₁, locks₁]
  have hlock' : (s₁.midway n .lockPush s.locks).callbackStep n = some (s₁.midway n .push locks₂) := by
    simp [Server.callbackStep, Server.midway_acquire _ _ (hfree .lobby), locks₂]
  have hpush : (s₁.midway n .push locks₂).callbackStep n = some (s₂.midway n .opened s.locks) := by
    rw [← hlocks₂]
    simp [Server.callbackStep, Server.midway, Server.callbackTo, Server.release, s₂, locks₂]
  rw [hend]
  exact .step hhalted htest (.step hhalted hlock (.step hhalted hregister (.step hhalted hlock'
    (.step hhalted hpush .refl))))

/-- The program in `s`, between two callbacks, holds what `d` does. -/
structure Serial (sid : κ → List Char) (d : Delivery κ) (s : Server) : Prop where
  running : s.halted = none
  listening : s.listening = true
  free : ∀ m, s.locks m = none
  stop : s.stop = d.server.stop
  connections : s.connections = d.server.connections
  closed : s.closed = d.server.closed
  lobby : s.lobby = d.server.lobby
  matchMaker : s.matchMaker = d.server.matchMaker
  clients : ∀ c, c ∈ s.clients ↔ ∃ k ∈ d.opened, stoull 64 (sid k) = .ok c
  fresh : ∀ c, c ∉ s.clients → s.closed c = false
  opened : ∀ k ∈ d.opened, k ∉ d.gone → ∀ c, stoull 64 (sid k) = .ok c → s.callbacks c = .opened

/-- `d` is reached by the program too. -/
def Reached (sid : κ → List Char) (d : Delivery κ) : Prop :=
  ∃ as s, Transition.run Server.step .initial as = some s ∧ Serial sid d s

/-- `Start` leads to the first message. -/
theorem Reached.initial : Reached sid (initial : Delivery κ) :=
  ⟨List.replicate 5 (.run .main), _, rfl, rfl, rfl, fun m => by cases m <;> rfl, rfl, rfl, rfl, rfl, rfl,
    fun _ => iff_of_false List.not_mem_nil (by simp [Delivery.initial]), fun _ _ => rfl, by simp [Delivery.initial]⟩

theorem Reached.next {as : List Server.Action} {s s' : Server}
    (hrun : Transition.run Server.step .initial as = some s) {a : Server.Action} {s₁ : Server}
    (hstep : s.step a = some s₁) (halone : Server.Alone n s₁ s') (h : Serial sid d' s') : Reached sid d' := by
  obtain ⟨m, hm⟩ := halone
  refine ⟨as ++ a :: List.replicate m (.run (.callback n)), s', ?_, h⟩
  rw [Transition.run_append, hrun, Option.bind_some, Transition.run_cons_some]
  exact ⟨s₁, hstep, hm⟩

variable [DecidableEq κ]

theorem Reached.opens (hsid : Distinct sid) (h : d.Tracked sid) (hr : Reached sid d) (hk : k ∉ d.opened)
    (hn : stoull 64 (sid k) = .ok n) :
    Reached sid ((d.note k .opens).returns (MessageHandler.call ⟨some (sid k), true⟩ .opens d.server)) := by
  obtain ⟨as, s, hrun, hs⟩ := hr
  have hnew : n ∉ s.clients := fun hc => by
    obtain ⟨j, hj, hread⟩ := (hs.clients n).mp hc
    exact hk (hsid j k n hread hn ▸ hj)
  have hstep : s.step (.connect n) = some ({ s with
      clients := s.clients ++ [n], alive := Function.update s.alive n true }.callbackTo n .openTestStop) := by
    simp [Server.step, hs.running, hs.listening, hnew]
  refine Reached.next hrun hstep (alone_opens hs.running (Function.update_self ..) (hs.stop.trans h.stop) hs.free
    (hs.fresh n hnew)) ?_
  rw [MessageHandler.call_opens h.stop hn]
  refine ⟨hs.running, hs.listening, hs.free, hs.stop, ?_, ?_, ?_, hs.matchMaker, fun c => ?_, fun c hc => ?_,
    fun j hj hgone c hc => ?_⟩
  · exact congrArg (· ++ [n]) hs.connections
  · exact congrArg (Function.update · n false) hs.closed
  · exact congrArg (Lobby.push · n) hs.lobby
  · show c ∈ s.clients ++ [n] ↔ ∃ j ∈ d.opened ++ [k], stoull 64 (sid j) = .ok c
    have hlast : stoull 64 (sid k) = .ok c ↔ c = n := by rw [hn, Except.ok.injEq, eq_comm]
    simp [hs.clients c, or_and_right, exists_or, hlast]
  · have hne : c ≠ n ∧ c ∉ s.clients := by
      constructor
      · exact fun he => hc (List.mem_append_right _ (List.mem_singleton.mpr he))
      · exact fun hm => hc (List.mem_append_left _ hm)
    exact (Function.update_of_ne hne.1 _ _).trans (hs.fresh c hne.2)
  · show Function.update (Function.update s.callbacks n _) n .opened c = .opened
    rcases List.mem_append.mp hj with hj | hj
    · have hne : c ≠ n := fun he => hk (hsid j k n (he ▸ hc) hn ▸ hj)
      rw [Function.update_idem, Function.update_of_ne hne]
      exact hs.opened j hj hgone c hc
    · rw [List.mem_singleton.mp hj, hn, Except.ok.injEq] at hc
      rw [hc, Function.update_self]

theorem Reached.closes (hsid : Distinct sid) (ho : d.Orderly) (h : d.Tracked sid) (hr : Reached sid d)
    (hk : k ∈ d.opened) (hgone : k ∉ d.gone) (hn : stoull 64 (sid k) = .ok n)
    (hread : fromChars 64 (sid k) 0 = n) :
    Reached sid ((d.note k .closes).returns (MessageHandler.call ⟨some (sid k), true⟩ .closes d.server)) := by
  obtain ⟨as, s, hrun, hs⟩ := hr
  have hmem : n ∈ d.server.connections := h.mem_connections.mpr ⟨k, hk, hgone, hn⟩
  have hstep : s.step (.disconnect n) = some (s.callbackTo n .closeTestStop) := by
    simp [Server.step, hs.running, hs.listening, hs.opened k hk hgone n hn]
  -- The call sees the same data in both.
  have hopen : (s.callbackTo n .closeTestStop).AllOpen := by
    refine ⟨fun c hc => ?_, fun w hw => ?_, fun w hw => ?_⟩
    · exact hs.closed ▸ h.allOpen.connections c (hs.connections ▸ hc)
    · exact hs.closed ▸ h.allOpen.lobby w (hs.lobby ▸ hw)
    · exact hs.closed ▸ h.allOpen.buffer w (hs.matchMaker ▸ hw)
  have hdistinct : s.connections.Nodup := hs.connections ▸ h.connections ▸ nodup_registered hsid ho
  have hcall : (s.callbackTo n .closeTestStop).onConnectionClosed n =
      .ok ((s.callbackTo n .closeTestStop).withoutConnection n) :=
    Server.onConnectionClosed_of_mem (hs.stop.trans h.stop) hdistinct hopen
      (show n ∈ s.connections from hs.connections ▸ hmem)
  have hends := Server.endsAs_onConnectionClosed (s := s.callbackTo n .closeTestStop) hs.running
    (Function.update_self ..) ⟨hs.free _, hs.free _, hs.free _, hs.free _⟩
  rw [hcall] at hends
  refine Reached.next hrun hstep hends ?_
  rw [h.call_closes hsid ho (hread.symm ▸ hmem), hread]
  refine ⟨hs.running, hs.listening, hs.free, hs.stop, ?_, ?_, ?_, ?_, hs.clients, fun c hc => ?_,
    fun j hj hopened c hc => ?_⟩
  · exact congrArg (List.filter (· ≠ n)) hs.connections
  · exact congrArg (Function.update · n true) hs.closed
  · exact congrArg (fun l : Lobby => { l with
      data := l.data.filter (·.id ≠ n), erased := l.erased ++ l.data.filter fun w : Waiting => w.id = n }) hs.lobby
  · exact congrArg (fun m : MatchMaker => { m with
      intermediateBuffer := m.intermediateBuffer.filter (·.id ≠ n)
      erased := m.erased ++ m.intermediateBuffer.filter fun w : Waiting => w.id = n }) hs.matchMaker
  · have hclient : n ∈ s.clients := (hs.clients n).mpr ⟨k, hk, hn⟩
    have hne : c ≠ n := fun he => hc (he ▸ hclient)
    exact (Function.update_of_ne hne _ _).trans (hs.fresh c hc)
  · show Function.update (Function.update s.callbacks n _) n .closed c = .opened
    have hne : c ≠ n := fun he => by
      subst he
      exact hopened (List.mem_append_right _ (List.mem_singleton.mpr (hsid j k c hc hn)))
    rw [Function.update_idem, Function.update_of_ne hne]
    exact hs.opened j hj (fun hg => hopened (List.mem_append_left _ hg)) c hc

theorem Reached.step_decimal (ids : κ ↪ UInt64) {type : MessageType} (ho : d.Orderly) (h : d.Tracked (decimal ids))
    (hr : Reached (decimal ids) d) (hstep : step (decimal ids) d (.message k type) = some d') :
    Reached (decimal ids) d' := by
  have hn := stoull_decimal ids k
  cases (step_cases hstep).2 with
  | message _ _ due =>
    cases type with
    | opens => exact hr.opens (distinct_decimal ids) h (by simpa [Due] using due) hn
    | closes =>
      have hk : k ∈ d.opened ∧ k ∉ d.gone := by simpa [Due] using due
      exact hr.closes (distinct_decimal ids) ho h hk.1 hk.2 hn (fromChars_of_digit (startsWithDigit_toDigits _) hn 0)
    | message => exact hr
    | error => exact hr
    | ping => exact hr
    | pong => exact hr
    | fragment => exact hr

/-- **The program does what the calls say**: messages handled one after the
other, in any order the library allows, are a run of the program that ends with
the same data. -/
theorem messages_reached (ids : κ ↪ UInt64) (ms : List (κ × MessageType)) :
    Transition.Always (step (decimal ids)) (Reached (decimal ids)) initial (ms.map fun m => .message m.1 m.2) := by
  have hmessages : Transition.Guarded (step (decimal ids)) (fun _ a => ∃ k type, a = .message k type) initial
      (ms.map fun m => .message m.1 m.2) := by
    refine Transition.guarded_of_forall (fun a ha => ?_) _
    obtain ⟨m, _, rfl⟩ := List.mem_map.mp ha
    exact ⟨m.1, m.2, rfl⟩
  have hall : Transition.Always (step (decimal ids))
      (fun d => d.Orderly ∧ d.Tracked (decimal ids) ∧ Reached (decimal ids) d) initial
      (ms.map fun m => .message m.1 m.2) :=
    Transition.always_of_guarded
      (fun d a d' ⟨ho, h, hr⟩ hmessage hstep => by
        obtain ⟨k, type, rfl⟩ := hmessage
        exact ⟨ho.step hstep, h.step_decimal ids ho hstep, hr.step_decimal ids ho h hstep⟩)
      ⟨.initial, .initial, .initial⟩ hmessages
  exact hall.mono fun _ h => h.2.2

end Delivery

end PokerEngine
