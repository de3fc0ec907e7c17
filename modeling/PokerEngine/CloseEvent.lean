/-
One close event, from the call of `OnConnectionClosed` to its return, with no
step of another thread in between.

For a registered connection the search, the flag, the removal and the two scans
go together as intended, whichever of the three containers hold it. For one that
is not registered the source reports the fact and goes on: it writes through the
past-the-end iterator and erases at it.
-/
import PokerEngine.ServerSteps
import PokerEngine.Transition

namespace PokerEngine

namespace Server

/-- `ConnectionClosureHandler::OnConnectionClosed(id)` over `observers`: each is
called, whatever the one before it returned. -/
def notifyObservers (id : ConnId) : List ClosureObserver → Server → Except Fault Server
  | [], s => .ok s
  | observer :: rest, s => do
    let s ← s.scanStash observer id
    notifyObservers id rest s

/-- `Server::OnConnectionClosed`, where `id` is what the state's id parses to. -/
def onConnectionClosed (s : Server) (id : ConnId) : Except Fault Server :=
  if s.stop then .ok s
  else
    match s.connections.find? (· = id) with
    -- The message is printed, and the iterator dereferenced all the same.
    | none => .error .pastTheEnd
    | some connection =>
      let s := { s with closed := Function.update s.closed connection true }
      let s := { s with connections := s.connections.erase connection }
      notifyObservers id initializeObservers.closureHandler s

/-- Connection `id` is marked closed and gone from the three containers, and all
else is as it was, the histories of the two scans apart. -/
def withoutConnection (s : Server) (id : ConnId) : Server :=
  { s with
    closed := Function.update s.closed id true
    connections := s.connections.filter (· ≠ id)
    lobby := { s.lobby with
      data := s.lobby.data.filter (·.id ≠ id)
      erased := s.lobby.erased ++ s.lobby.data.filter (·.id = id) }
    matchMaker := { s.matchMaker with
      intermediateBuffer := s.matchMaker.intermediateBuffer.filter (·.id ≠ id)
      erased := s.matchMaker.erased ++ s.matchMaker.intermediateBuffer.filter (·.id = id) } }

/-- The event comes to its end: it takes out a registered connection, and leaves
the three containers alone otherwise. -/
def ClosesOnly (s : Server) (id : ConnId) : Prop :=
  ∃ s', s.onConnectionClosed id = .ok s' ∧ (id ∈ s.connections → s' = s.withoutConnection id) ∧
    (id ∉ s.connections → s'.connections = s.connections ∧ s'.lobby.data = s.lobby.data ∧
      s'.matchMaker.intermediateBuffer = s.matchMaker.intermediateBuffer)

/-- No connection in the three containers is marked closed. -/
structure AllOpen (s : Server) : Prop where
  connections : ∀ c ∈ s.connections, s.closed c = false
  lobby : ∀ w ∈ s.lobby.data, s.closed w.id = false
  buffer : ∀ w ∈ s.matchMaker.intermediateBuffer, s.closed w.id = false

/-- With the flag of `id` set in a stash of open entries, a scan for `id` erases
the entries of `id`. -/
theorem scan_update {closed : ConnId → Bool} {stash : List Waiting} (h : ∀ w ∈ stash, closed w.id = false)
    (id : ConnId) :
    scan (Function.update closed id true) id stash = .ok (stash.filter (·.id ≠ id), stash.filter (·.id = id)) := by
  have hflag : ∀ w ∈ stash, Function.update closed id true w.id = decide (w.id = id) := fun w hw => by
    by_cases hid : w.id = id
    · simp [hid]
    · simp [h w hw, hid]
  rw [scan_eq, if_pos]
  · congr 2
    · exact List.filter_congr fun w hw => by simp [hflag w hw]
    · exact List.filter_congr fun w hw => hflag w hw
  · rw [List.all_eq_true]
    intro w hw
    rw [hflag w hw]
    by_cases hid : w.id = id <;> simp [hid]

theorem find?_of_mem {connections : List ConnId} {id : ConnId} (h : id ∈ connections) :
    connections.find? (· = id) = some id := by
  have hsome : (connections.find? (· = id)).isSome = true := by
    rw [List.find?_isSome]
    exact ⟨id, h, by simp⟩
  obtain ⟨c, hc⟩ := Option.isSome_iff_exists.mp hsome
  have hid := List.find?_some hc
  rw [decide_eq_true_eq] at hid
  rw [hc, hid]

theorem find?_of_not_mem {connections : List ConnId} {id : ConnId} (h : id ∉ connections) :
    connections.find? (· = id) = none :=
  List.find?_eq_none.mpr fun c hc => by simpa using fun hid : c = id => h (hid ▸ hc)

/-- **A close event for a registered connection.** -/
theorem onConnectionClosed_of_mem {s : Server} {id : ConnId} (hstop : s.stop = false)
    (hdistinct : s.connections.Nodup) (hopen : s.AllOpen) (hmem : id ∈ s.connections) :
    s.onConnectionClosed id = .ok (s.withoutConnection id) := by
  have hconnections : s.connections.erase id = s.connections.filter (· ≠ id) := by
    rw [hdistinct.erase_eq_filter]
    exact List.filter_congr fun c _ => by by_cases hc : c = id <;> simp [hc]
  have hlobby := scan_update hopen.lobby id
  have hbuffer := scan_update hopen.buffer id
  simp only [onConnectionClosed, hstop, Bool.false_eq_true, if_false, find?_of_mem hmem, initializeObservers,
    Observers.addToClosureHandler, Observers.addToServerManager, List.nil_append, List.cons_append, notifyObservers,
    scanStash, Lobby.onConnectionClosed, MatchMaker.onConnectionClosed, hlobby, hbuffer, bind, Except.bind, pure,
    Except.pure, withoutConnection, hconnections]

/-- The iterator is dereferenced past the end. -/
theorem onConnectionClosed_of_not_mem {s : Server} {id : ConnId} (hstop : s.stop = false)
    (hmem : id ∉ s.connections) : s.onConnectionClosed id = .error .pastTheEnd := by
  simp [onConnectionClosed, hstop, find?_of_not_mem hmem]

/-- **When a close event does what it should**: when its connection is
registered. -/
theorem closesOnly_iff {s : Server} (id : ConnId) (hstop : s.stop = false) (hdistinct : s.connections.Nodup)
    (hopen : s.AllOpen) : s.ClosesOnly id ↔ id ∈ s.connections := by
  constructor
  · intro ⟨s', hs', _, _⟩
    by_contra hmem
    rw [onConnectionClosed_of_not_mem hstop hmem] at hs'
    cases hs'
  · intro hmem
    exact ⟨_, onConnectionClosed_of_mem hstop hdistinct hopen hmem, fun _ => rfl, fun h => absurd hmem h⟩

/-- Connections 0, 1 and 2, of which 0 is in the buffer and 1 in the lobby. -/
def threeConnected : Server :=
  { initial with
    connections := [0, 1, 2]
    lobby := { data := [⟨1, 1⟩], pushed := [⟨0, 0⟩, ⟨1, 1⟩], erased := [] }
    matchMaker := { stop := false, intermediateBuffer := [⟨0, 0⟩], erased := [], assembled := [] } }

theorem closesOnly_iff_threeConnected : threeConnected.ClosesOnly 1 :=
  (closesOnly_iff 1 rfl (by decide) ⟨fun _ _ => rfl, fun _ _ => rfl, fun _ _ => rfl⟩).mpr (by decide)

/-- Connection 7 is not registered. -/
theorem onConnectionClosed_pastTheEnd :
    threeConnected.stop = false ∧ threeConnected.connections.Nodup ∧ threeConnected.AllOpen ∧
      threeConnected.onConnectionClosed 7 = .error .pastTheEnd ∧ ¬ threeConnected.ClosesOnly 7 := by
  have herror : threeConnected.onConnectionClosed 7 = .error .pastTheEnd :=
    onConnectionClosed_of_not_mem rfl (by decide)
  refine ⟨rfl, by decide, ⟨fun _ _ => rfl, fun _ _ => rfl, fun _ _ => rfl⟩, herror, ?_⟩
  intro ⟨s', hs', _⟩
  rw [herror] at hs'
  cases hs'

/-! ## The steps of the callback -/

/-- The thread of connection `id` alone goes from `s` to `s'`. -/
def Alone (id : ConnId) (s s' : Server) : Prop :=
  ∃ n, Transition.run step s (List.replicate n (.run (.callback id))) = some s'

/-- The mutexes that `OnConnectionClosed` takes are free. -/
def Unlocked (locks : Mutex → Option Thread) : Prop :=
  locks .connections = none ∧ locks .closureHandler = none ∧ locks .lobby = none ∧ locks .buffer = none

/-- The data of `s`, with the thread of `id` at `pc` and the mutexes as given. -/
def midway (s : Server) (id : ConnId) (pc : CallbackPc) (locks : Mutex → Option Thread) : Server :=
  { s with callbacks := Function.update s.callbacks id pc, locks }

section Alone

variable {s s' t : Server} {id : ConnId} {pc pc' : CallbackPc} {locks : Mutex → Option Thread}

theorem Alone.refl : Alone id s s := ⟨0, rfl⟩

theorem Alone.step (hhalted : s.halted = none) (hstep : s.callbackStep id = some s') (h : Alone id s' t) :
    Alone id s t := by
  obtain ⟨n, hn⟩ := h
  refine ⟨n + 1, ?_⟩
  rw [List.replicate_succ, Transition.run_cons_some]
  exact ⟨s', by simpa [Server.step, hhalted, threadStep] using hstep, hn⟩

theorem Alone.trans (h : Alone id s s') (h' : Alone id s' t) : Alone id s t := by
  obtain ⟨n, hn⟩ := h
  obtain ⟨m, hm⟩ := h'
  exact ⟨n + m, by rw [← List.replicate_append_replicate, Transition.run_append, hn]; exact hm⟩

@[simp] theorem midway_callbacks : (s.midway id pc locks).callbacks id = pc := Function.update_self ..

@[simp] theorem midway_callbackTo : (s.midway id pc locks).callbackTo id pc' = s.midway id pc' locks := by
  simp [midway, callbackTo]

theorem midway_acquire (m : Mutex) (u : Thread) (h : locks m = none) :
    (s.midway id pc locks).acquire m u = some (s.midway id pc (Function.update locks m (some u))) :=
  if_pos h

@[simp] theorem midway_release (m : Mutex) :
    (s.midway id pc locks).release m = s.midway id pc (Function.update locks m none) := rfl

/-- A scan does not see the threads and the mutexes. -/
theorem midway_scanStash (observer : ClosureObserver) :
    (s.midway id pc locks).scanStash observer id = (s.scanStash observer id).map (·.midway id pc locks) := by
  cases observer with
  | lobby =>
    simp only [scanStash, midway]
    cases s.lobby.onConnectionClosed s.closed id <;> rfl
  | matchMaker =>
    simp only [scanStash, midway]
    cases s.matchMaker.onConnectionClosed s.closed id <;> rfl

theorem scanStash_frame {observer : ClosureObserver} (h : s.scanStash observer id = .ok t) :
    t.halted = s.halted ∧ t.locks = s.locks := by
  cases observer with
  | lobby =>
    cases hs : s.lobby.onConnectionClosed s.closed id with
    | error f => simp [scanStash, hs, bind, Except.bind] at h
    | ok p =>
      simp only [scanStash, hs, bind, Except.bind, pure, Except.pure, Except.ok.injEq] at h
      exact h ▸ ⟨rfl, rfl⟩
  | matchMaker =>
    cases hs : s.matchMaker.onConnectionClosed s.closed id with
    | error f => simp [scanStash, hs, bind, Except.bind] at h
    | ok p =>
      simp only [scanStash, hs, bind, Except.bind, pure, Except.pure, Except.ok.injEq] at h
      exact h ▸ ⟨rfl, rfl⟩

theorem notifyObservers_frame {rest : List ClosureObserver} (h : notifyObservers id rest s = .ok t) :
    t.halted = s.halted ∧ t.locks = s.locks := by
  induction rest generalizing s with
  | nil =>
    simp only [notifyObservers, Except.ok.injEq] at h
    exact h ▸ ⟨rfl, rfl⟩
  | cons observer rest ih =>
    cases hs : s.scanStash observer id with
    | error f => simp [notifyObservers, hs, bind, Except.bind] at h
    | ok s₁ =>
      simp only [notifyObservers, hs, bind, Except.bind] at h
      obtain ⟨hhalted, hlocks⟩ := scanStash_frame hs
      exact ⟨(ih h).1.trans hhalted, (ih h).2.trans hlocks⟩

/-- Alone, the thread of `id` ends as the call does: with the state `final`
makes of the call's result, or halted by its fault. -/
def EndsAs (id : ConnId) (s : Server) (final : Server → Server) : Except Fault Server → Prop
  | .ok t => Alone id s (final t)
  | .error f => ∃ t, t.halted = some f ∧ Alone id s t

theorem EndsAs.step {final : Server → Server} {result : Except Fault Server} (hhalted : s.halted = none)
    (hstep : s.callbackStep id = some s') (h : EndsAs id s' final result) : EndsAs id s final result := by
  cases result with
  | ok t => exact Alone.step hhalted hstep h
  | error f =>
    obtain ⟨t, ht, halone⟩ := h
    exact ⟨t, ht, .step hhalted hstep halone⟩

theorem EndsAs.trans {final final' : Server → Server} {result : Except Fault Server} (h : EndsAs id s final result)
    (h' : ∀ t, result = .ok t → Alone id (final t) (final' t)) : EndsAs id s final' result := by
  cases result with
  | ok t => exact Alone.trans h (h' t rfl)
  | error f => exact h

/-- The loop over the observers, each under its mutex. -/
theorem endsAs_notify (rest : List ClosureObserver) (hhalted : s.halted = none) (hlobby : locks .lobby = none)
    (hbuffer : locks .buffer = none) :
    EndsAs id (s.midway id (.notify rest) locks) (·.midway id (.notify []) locks) (notifyObservers id rest s) := by
  induction rest generalizing s with
  | nil => exact .refl
  | cons observer rest ih =>
    have hmutex : locks (stashMutex observer) = none := by cases observer <;> assumption
    have hnotify : (s.midway id (.notify (observer :: rest)) locks).callbackStep id = some (s.midway id
        (.scan observer rest) (Function.update locks (stashMutex observer) (some (.callback id)))) := by
      simp [callbackStep, midway_acquire _ _ hmutex]
    refine .step hhalted hnotify ?_
    simp only [notifyObservers, bind, Except.bind]
    cases hs : s.scanStash observer id with
    | error f =>
      have hscan : (s.midway id (.scan observer rest)
          (Function.update locks (stashMutex observer) (some (.callback id)))).callbackStep id =
            some ((s.midway id (.scan observer rest)
              (Function.update locks (stashMutex observer) (some (.callback id)))).halt f) := by
        simp only [callbackStep, midway_callbacks, midway_scanStash, hs, Except.map]
      exact ⟨_, rfl, .step hhalted hscan .refl⟩
    | ok s₁ =>
      refine .step hhalted ?_ (ih ((scanStash_frame hs).1.trans hhalted))
      simp only [callbackStep, midway_callbacks, midway_scanStash, hs, Except.map, midway_release,
        midway_callbackTo, Function.update_idem]
      rw [← hmutex, Function.update_eq_self]

/-- From the search that finds the connection, with its mutex held, to the
release of that mutex. -/
theorem endsAs_find (hhalted : s.halted = none) (hmem : id ∈ s.connections)
    (hlocks : Function.update locks .connections none = s.locks) (hhandler : locks .closureHandler = none)
    (hlobby : locks .lobby = none) (hbuffer : locks .buffer = none) :
    EndsAs id (s.midway id .find locks) (·.callbackTo id .closed)
      (notifyObservers id initializeObservers.closureHandler
        { s with closed := Function.update s.closed id true, connections := s.connections.erase id }) := by
  let s₁ := { s with closed := Function.update s.closed id true }
  let s₂ := { s₁ with connections := s₁.connections.erase id }
  let locks' := Function.update locks .closureHandler (some (.callback id))
  have hlocks' : Function.update locks' .closureHandler none = locks := by
    rw [Function.update_idem, ← hhandler, Function.update_eq_self]
  have hfind : (s.midway id .find locks).callbackStep id = some (s.midway id .setClosed locks) := by
    simp [callbackStep, show id ∈ (s.midway id .find locks).connections from hmem]
  have hflag : (s.midway id .setClosed locks).callbackStep id = some (s₁.midway id .erase locks) := by
    simp [callbackStep, midway, callbackTo, s₁]
  have herase : (s₁.midway id .erase locks).callbackStep id = some (s₂.midway id .lockHandler locks) := by
    simp [callbackStep, midway, callbackTo, s₁, s₂]
  have hnotify : (s₂.midway id .lockHandler locks).callbackStep id =
      some (s₂.midway id (.notify initializeObservers.closureHandler) locks') := by
    simp [callbackStep, midway_acquire _ _ hhandler, locks']
  have hloop : EndsAs id (s₂.midway id (.notify initializeObservers.closureHandler) locks')
      (·.midway id (.notify []) locks') (notifyObservers id initializeObservers.closureHandler s₂) :=
    endsAs_notify _ hhalted hlobby hbuffer
  refine .step hhalted hfind (.step hhalted hflag (.step hhalted herase (.step hhalted hnotify
    (hloop.trans fun t ht => ?_))))
  obtain ⟨hhalted', hkept⟩ := notifyObservers_frame ht
  have hhandler' : (t.midway id (.notify []) locks').callbackStep id = some (t.midway id .unlockClose locks) := by
    simp [callbackStep, hlocks']
  have hend : t.midway id .closed s.locks = t.callbackTo id .closed := by
    rw [← show t.locks = s.locks from hkept]
    rfl
  have hunlock : (t.midway id .unlockClose locks).callbackStep id = some (t.callbackTo id .closed) := by
    simp [callbackStep, hlocks, hend]
  exact .step (hhalted'.trans hhalted) hhandler' (.step (hhalted'.trans hhalted) hunlock .refl)

/-- **The steps of the callback, taken alone, are the call of
`OnConnectionClosed`**, when no other thread holds a mutex that it takes. -/
theorem endsAs_onConnectionClosed (hhalted : s.halted = none) (hplace : s.callbacks id = .closeTestStop)
    (hfree : Unlocked s.locks) : EndsAs id s (·.callbackTo id .closed) (s.onConnectionClosed id) := by
  obtain ⟨hconnections, hhandler, hlobby, hbuffer⟩ := hfree
  unfold onConnectionClosed
  by_cases hstop : s.stop = true
  · rw [if_pos hstop]
    exact .step hhalted (by simp [callbackStep, hplace, hstop]) Alone.refl
  rw [if_neg hstop]
  let locks := Function.update s.locks .connections (some (.callback id))
  have hlocks : Function.update locks .connections none = s.locks := by
    rw [Function.update_idem, ← hconnections, Function.update_eq_self]
  have htest : s.callbackStep id = some (s.midway id .lockClose s.locks) := by
    simp [callbackStep, hplace, hstop, midway, callbackTo]
  have hlock : (s.midway id .lockClose s.locks).callbackStep id = some (s.midway id .find locks) := by
    simp [callbackStep, midway_acquire _ _ hconnections, locks]
  refine .step hhalted htest (.step hhalted hlock ?_)
  by_cases hmem : id ∈ s.connections
  · simp only [find?_of_mem hmem]
    exact endsAs_find hhalted hmem hlocks hhandler hlobby hbuffer
  · have hfind : (s.midway id .find locks).callbackStep id = some ((s.midway id .find locks).halt .pastTheEnd) := by
      simp [callbackStep, show id ∉ (s.midway id .find locks).connections from hmem]
    simp only [find?_of_not_mem hmem]
    exact ⟨_, rfl, .step hhalted hfind .refl⟩

end Alone

end Server

end PokerEngine
