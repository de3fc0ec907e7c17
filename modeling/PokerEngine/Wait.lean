/-
`ServerManager::Wait`: the main thread starts the listener, locks the mutex and
waits on the condition variable; the listener reads lines and, at `q` or
`quit`, notifies and returns.

A notification wakes a thread that waits, and is lost otherwise. Nothing else
tells the main thread of the request, and the listener does not take the mutex,
so the request is lost when the line is read before the main thread waits
(`quit_heard_iff`).
-/
import PokerEngine.Server
import PokerEngine.Transition

namespace PokerEngine

/-- Where the main thread is in `Wait`. It is `blocked` inside `wait_cv_.wait`,
with the mutex released, until it is notified. -/
inductive WaitPc
  | startListener
  | lock
  | wait
  | blocked
  | woken
  | unlock
  | join
  | returned
  deriving DecidableEq, Repr

/-- Where the listener's thread is in `Waiter::Listen`. -/
inductive ListenPc
  | unstarted
  | getline
  | test (line : String)
  | notify
  | returned
  deriving DecidableEq, Repr

/-- `Wait` under way, with the lines of the input not read yet. -/
structure Wait where
  input : List String
  main : WaitPc
  listener : ListenPc
  /-- `wait_mutex_` is held; only the main thread takes it. -/
  waitMutex : Bool
  /-- The listener has read a line to quit (history). -/
  quitRead : Bool
  deriving DecidableEq, Repr

namespace Wait

/-- The lines that end the program. -/
def isQuit (line : String) : Bool := line = "q" || line = "quit"

def initial (input : List String) : Wait :=
  { input, main := .startListener, listener := .unstarted, waitMutex := false, quitRead := false }

/-- One step of `Wait`; `none` while it is blocked or joins a listener that has
not returned. -/
def mainStep (w : Wait) : Option Wait :=
  match w.main with
  | .startListener => some { w with main := .lock, listener := .getline }
  | .lock => if w.waitMutex then none else some { w with main := .wait, waitMutex := true }
  | .wait => some { w with main := .blocked, waitMutex := false }
  | .blocked => none
  | .woken => if w.waitMutex then none else some { w with main := .unlock, waitMutex := true }
  | .unlock => some { w with main := .join, waitMutex := false }
  | .join => if w.listener = .returned then some { w with main := .returned } else none
  | .returned => none

/-- One step of `Listen`. `notify_one` wakes the main thread if it waits. -/
def listenerStep (w : Wait) : Option Wait :=
  match w.listener with
  | .unstarted => none
  | .getline =>
    match w.input with
    | [] => some { w with listener := .returned }
    | line :: rest => some { w with input := rest, listener := .test line }
  | .test line =>
    if isQuit line then some { w with listener := .notify, quitRead := true }
    else some { w with listener := .getline }
  | .notify => some { w with main := if w.main = .blocked then .woken else w.main, listener := .returned }
  | .returned => none

/-- A step of one of the threads, or a wake-up without a notification, as
condition variables have them. -/
inductive Action
  | main
  | listener
  | spuriousWake
  deriving DecidableEq, Repr

def step (w : Wait) : Action → Option Wait
  | .main => w.mainStep
  | .listener => w.listenerStep
  | .spuriousWake => if w.main = .blocked then some { w with main := .woken } else none

/-- The main thread waits, or goes on to wait. -/
def waits : WaitPc → Bool
  | .lock => true
  | .wait => true
  | .blocked => true
  | _ => false

/-- The request to quit is lost: the listener has read it and returned, and the
main thread waits, or goes on to wait, for a notification that is not to come. -/
def Stuck (w : Wait) : Prop := w.quitRead = true ∧ w.listener = .returned ∧ waits w.main = true

/-- The condition on a step: the listener notifies when the main thread waits
already, or has gone on. -/
def NotifiesInTime (w : Wait) (a : Action) : Prop :=
  a = .listener → w.listener = .notify → w.main ≠ .lock ∧ w.main ≠ .wait

instance (w : Wait) : Decidable (Stuck w) := by unfold Stuck; infer_instance
instance (w : Wait) (a : Action) : Decidable (NotifiesInTime w a) := by unfold NotifiesInTime; infer_instance

/-- The listener is started first, and ends soon after a line to quit. -/
structure Inv (w : Wait) : Prop where
  started : w.main = .startListener ↔ w.listener = .unstarted
  quitRead : w.quitRead = true → w.listener = .notify ∨ w.listener = .returned
  notify : w.listener = .notify → w.quitRead = true
  mutex : w.waitMutex = true ↔ w.main = .wait ∨ w.main = .unlock

theorem Inv.initial (input : List String) : (initial input).Inv :=
  ⟨by simp [Wait.initial], by simp [Wait.initial], by simp [Wait.initial], by simp [Wait.initial]⟩

/-- What a step of the main thread does. -/
inductive MainStep (w : Wait) : Wait → Prop
  | startListener (place : w.main = .startListener) : MainStep w { w with main := .lock, listener := .getline }
  | lock (place : w.main = .lock) : MainStep w { w with main := .wait, waitMutex := true }
  | wait (place : w.main = .wait) : MainStep w { w with main := .blocked, waitMutex := false }
  | wake (place : w.main = .woken) : MainStep w { w with main := .unlock, waitMutex := true }
  | unlock (place : w.main = .unlock) : MainStep w { w with main := .join, waitMutex := false }
  | join (place : w.main = .join) (returned : w.listener = .returned) : MainStep w { w with main := .returned }

theorem mainStep_cases {w w' : Wait} (h : w.mainStep = some w') : MainStep w w' := by
  unfold mainStep at h
  cases hm : w.main <;> simp only [hm] at h
  case startListener => exact Option.some.inj h ▸ .startListener hm
  case wait => exact Option.some.inj h ▸ .wait hm
  case unlock => exact Option.some.inj h ▸ .unlock hm
  case lock =>
    split at h
    · simp at h
    · exact Option.some.inj h ▸ .lock hm
  case woken =>
    split at h
    · simp at h
    · exact Option.some.inj h ▸ .wake hm
  case join =>
    split at h
    · next hreturned => exact Option.some.inj h ▸ .join hm hreturned
    · simp at h
  all_goals simp at h

/-- What a step of the listener does. -/
inductive ListenerStep (w : Wait) : Wait → Prop
  | inputEnds (place : w.listener = .getline) : ListenerStep w { w with listener := .returned }
  | reads (line : String) (rest : List String) (place : w.listener = .getline) :
    ListenerStep w { w with input := rest, listener := .test line }
  | quits (line : String) (place : w.listener = .test line) :
    ListenerStep w { w with listener := .notify, quitRead := true }
  | goesOn (line : String) (place : w.listener = .test line) : ListenerStep w { w with listener := .getline }
  | notifies (place : w.listener = .notify) :
    ListenerStep w { w with main := if w.main = .blocked then .woken else w.main, listener := .returned }

theorem listenerStep_cases {w w' : Wait} (h : w.listenerStep = some w') : ListenerStep w w' := by
  unfold listenerStep at h
  cases hl : w.listener <;> simp only [hl] at h
  case notify => exact Option.some.inj h ▸ .notifies hl
  case getline =>
    split at h
    · exact Option.some.inj h ▸ .inputEnds hl
    · next line rest _ => exact Option.some.inj h ▸ .reads line rest hl
  case test line =>
    split at h
    · exact Option.some.inj h ▸ .quits line hl
    · exact Option.some.inj h ▸ .goesOn line hl
  all_goals simp at h

theorem Inv.main {w w' : Wait} (h : w.Inv) (hstep : w.mainStep = some w') : w'.Inv := by
  obtain ⟨hstarted, hquit, hnotify, hmutex⟩ := h
  cases mainStep_cases hstep with
  | startListener place =>
    have hunstarted := hstarted.mp place
    have hread : w.quitRead = false := by simpa [hunstarted] using hquit
    exact ⟨by simp, by simp [hread], by simp, by simpa [place] using hmutex⟩
  | lock place => exact ⟨by simpa [place] using hstarted, hquit, hnotify, by simp⟩
  | wait place => exact ⟨by simpa [place] using hstarted, hquit, hnotify, by simp⟩
  | wake place => exact ⟨by simpa [place] using hstarted, hquit, hnotify, by simp⟩
  | unlock place => exact ⟨by simpa [place] using hstarted, hquit, hnotify, by simp⟩
  | join place => exact ⟨by simpa [place] using hstarted, hquit, hnotify, by simpa [place] using hmutex⟩

theorem Inv.listener {w w' : Wait} (h : w.Inv) (hstep : w.listenerStep = some w') : w'.Inv := by
  obtain ⟨hstarted, hquit, hnotify, hmutex⟩ := h
  cases listenerStep_cases hstep with
  | inputEnds place => exact ⟨by simpa [place] using hstarted, by simp, by simp, hmutex⟩
  | reads line rest place =>
    have hread : w.quitRead = false := by simpa [place] using hquit
    exact ⟨by simpa [place] using hstarted, by simp [hread], by simp, hmutex⟩
  | quits line place => exact ⟨by simpa [place] using hstarted, by simp, by simp, hmutex⟩
  | goesOn line place =>
    have hread : w.quitRead = false := by simpa [place] using hquit
    exact ⟨by simpa [place] using hstarted, by simp [hread], by simp, hmutex⟩
  | notifies place =>
    by_cases hblocked : w.main = .blocked
    · exact ⟨by simp [hblocked], by simp, by simp, by simpa [hblocked] using hmutex⟩
    · exact ⟨by simpa [hblocked, place] using hstarted, by simp, by simp, by simpa [hblocked] using hmutex⟩

theorem Inv.step {w w' : Wait} {a : Action} (h : w.Inv) (hstep : w.step a = some w') : w'.Inv := by
  cases a with
  | main => exact h.main hstep
  | listener => exact h.listener hstep
  | spuriousWake =>
    obtain ⟨hstarted, hquit, hnotify, hmutex⟩ := h
    simp only [Wait.step] at hstep
    split at hstep
    · next hblocked =>
      obtain rfl := Option.some.inj hstep
      exact ⟨by simpa [hblocked] using hstarted, hquit, hnotify, by simpa [hblocked] using hmutex⟩
    · simp at hstep

/-- The main thread does not come to wait, nor leave before it is woken, by its
own step. -/
theorem main_stuck {w w' : Wait} (hstep : w.mainStep = some w') : w'.Stuck ↔ w.Stuck := by
  cases mainStep_cases hstep with
  | startListener place => simp [Stuck, place, waits]
  | lock place => simp [Stuck, place, waits]
  | wait place => simp [Stuck, place, waits]
  | wake place => simp [Stuck, place, waits]
  | unlock place => simp [Stuck, place, waits]
  | join place => simp [Stuck, place, waits]

/-- The listener's step loses the request when it notifies too early, and only
then. -/
theorem listener_stuck {w w' : Wait} (h : w.Inv) (hstep : w.listenerStep = some w') :
    w'.Stuck ↔ ¬ w.NotifiesInTime .listener := by
  cases listenerStep_cases hstep with
  | inputEnds place =>
    have hread : w.quitRead = false := by simpa [place] using h.quitRead
    simp [Stuck, NotifiesInTime, place, hread]
  | reads line rest place => simp [Stuck, NotifiesInTime, place]
  | quits line place => simp [Stuck, NotifiesInTime, place]
  | goesOn line place => simp [Stuck, NotifiesInTime, place]
  | notifies place =>
    have hread := h.notify place
    cases hm : w.main <;> simp [Stuck, NotifiesInTime, place, hread, hm, waits]

theorem spuriousWake_not_stuck {w w' : Wait} (hstep : w.step .spuriousWake = some w') : ¬ w'.Stuck := by
  simp only [Wait.step] at hstep
  split at hstep
  · simp only [Option.some.injEq] at hstep
    subst hstep
    simp [Stuck, waits]
  · simp at hstep

/-- **When a request to quit is heard.** Whatever the input, in a run of the two
threads no state is stuck exactly if the listener notifies, when it does, a main
thread that waits already or has gone on. -/
theorem quit_heard_iff (input : List String) (as : List Action) :
    Transition.Always step (fun w => ¬ w.Stuck) (initial input) as ↔
      Transition.Guarded step NotifiesInTime (initial input) as := by
  refine Transition.always_iff_guarded (I := Inv) (fun w a w' h hs => h.step hs) (fun w a w' h hP hs => ?_)
    (Inv.initial input) (by simp [Stuck, initial]) as
  cases a with
  | main => exact iff_of_true (fun hstuck => hP ((main_stuck hs).mp hstuck)) fun hmain => by cases hmain
  | listener => exact not_iff_comm.mp (listener_stuck h hs).symm
  | spuriousWake => exact iff_of_true (spuriousWake_not_stuck hs) fun hwake => by cases hwake

/-- The listener notifies before the main thread has locked the mutex, which
then waits for ever. -/
theorem quit_lost :
    ∃ w, Transition.run step (initial ["q"]) [.main, .listener, .listener, .listener, .main, .main] = some w ∧
      w.Stuck ∧ w.main = .blocked ∧ w.mainStep = none ∧ w.listenerStep = none :=
  ⟨_, rfl, ⟨rfl, rfl, rfl⟩, rfl, rfl, rfl⟩

/-- Where the request is not lost, `Wait` comes back once the listener has
returned, by the steps of the main thread alone. -/
theorem returns_of_not_stuck {w : Wait} (h : w.Inv) (hquit : w.quitRead = true) (hreturned : w.listener = .returned)
    (hstuck : ¬ w.Stuck) :
    ∃ n w', Transition.run step w (List.replicate n .main) = some w' ∧ w'.main = .returned := by
  have hwaits : waits w.main ≠ true := fun hw => hstuck ⟨hquit, hreturned, hw⟩
  have hstarted : w.main ≠ .startListener := fun hs => by simp [h.started.mp hs] at hreturned
  cases hm : w.main with
  | startListener => exact absurd hm hstarted
  | lock => simp [hm, waits] at hwaits
  | wait => simp [hm, waits] at hwaits
  | blocked => simp [hm, waits] at hwaits
  | woken =>
    have hmutex : w.waitMutex = false := by simpa [hm] using h.mutex
    exact ⟨3, { w with main := .returned, waitMutex := false },
      by simp [Transition.run, step, mainStep, hm, hmutex, hreturned], rfl⟩
  | unlock =>
    exact ⟨2, { w with main := .returned, waitMutex := false },
      by simp [Transition.run, step, mainStep, hm, hreturned], rfl⟩
  | join =>
    exact ⟨1, { w with main := .returned }, by simp [Transition.run, step, mainStep, hm, hreturned], rfl⟩
  | returned => exact ⟨0, w, rfl, hm⟩

/-! ## `Wait` inside the program -/

/-- The main thread's place in the program. -/
def mainPc (w : Wait) : MainPc := if w.main = .returned then .lockEnd else .waiting

theorem step_returned {w w' : Wait} {a : Action} (hstep : w.step a = some w') (h : w.main = .returned) :
    w'.main = .returned := by
  cases a with
  | main => simp [step, mainStep, h] at hstep
  | listener => cases listenerStep_cases hstep <;> simp [h]
  | spuriousWake => simp [step, h] at hstep

/-- In the program, the return of `Wait` is the operator's quitting, and its
other steps are not seen. -/
theorem step_quit {w w' : Wait} {a : Action} (hstep : w.step a = some w') {s : Server} (hhalted : s.halted = none)
    (hmain : s.main = w.mainPc) : s.mainTo w'.mainPc = s ∨ s.step .quit = some (s.mainTo w'.mainPc) := by
  by_cases hreturned : w.main = .returned
  · left
    rw [mainPc, if_pos hreturned] at hmain
    rw [mainPc, if_pos (step_returned hstep hreturned), ← hmain]
    rfl
  · rw [mainPc, if_neg hreturned] at hmain
    by_cases hreturns : w'.main = .returned
    · right
      simp [Server.step, hhalted, hmain, mainPc, hreturns]
    · left
      rw [mainPc, if_neg hreturns, ← hmain]
      rfl

end Wait

end PokerEngine
