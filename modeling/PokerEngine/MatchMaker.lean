/-
The match maker (`match_maker.h`, `match_maker.cc`): it moves players from the
lobby into a buffer, one at a time, and makes a game of them when the buffer
holds enough.

Here are the sections of `Run` and `AssembleGame` that a lock protects, and the
places `Run` can be at; `Server` puts them together.
-/
import PokerEngine.Lobby

namespace PokerEngine

def gNumberOfPlayersInGame : Nat := 3

/-- `MatchMaker`. -/
structure MatchMaker where
  stop : Bool
  intermediateBuffer : List Waiting
  /-- The entries erased by scans of the buffer so far (history). -/
  erased : List Waiting
  /-- The player groups taken out of the buffer so far, in order (history). -/
  assembled : List (List (Option Waiting))
  deriving DecidableEq, Repr

/-- Where the match maker's thread is in `Run`. A section under a lock has two
places: before the lock is taken, and under it. -/
inductive MakerPc
  | unstarted
  | testStop
  | lockEmpty
  | empty
  | lockWait
  | wait
  | wake
  | unlockWait
  | lockBoth
  | fill
  | lockBuffer
  | assemble
  | creating
  | returned
  deriving DecidableEq, Repr

namespace MatchMaker

def construct : MatchMaker := ⟨false, [], [], []⟩

/-- The section under both locks: the lobby's front moves into the buffer. -/
def fill (lobby : Lobby) (m : MatchMaker) : Lobby × MatchMaker :=
  match lobby.data with
  | [] => (lobby, m)
  | front :: rest =>
    if m.intermediateBuffer.length = gNumberOfPlayersInGame then (lobby, m)
    else ({ lobby with data := rest }, { m with intermediateBuffer := m.intermediateBuffer ++ [front] })

theorem fill_history (l : Lobby) (m : MatchMaker) :
    (fill l m).1.pushed = l.pushed ∧ (fill l m).1.erased = l.erased ∧ (fill l m).2.erased = m.erased ∧
      (fill l m).2.assembled = m.assembled := by
  unfold fill
  split
  · exact ⟨rfl, rfl, rfl, rfl⟩
  · split <;> exact ⟨rfl, rfl, rfl, rfl⟩

/-- `std::move(first, last, players.begin())`. -/
def moveInto {α : Type} : List (Option α) → List α → Except Fault (List (Option α))
  | players, [] => .ok players
  | [], _ :: _ => .error .pastTheEnd
  | _ :: players, x :: xs => do
    let moved ← moveInto players xs
    return some x :: moved

/-- `AssembleGame` up to the unlock: the players, and the match maker after. -/
def assembleGame (m : MatchMaker) : Except Fault (List (Option Waiting) × MatchMaker) := do
  let players ← moveInto (List.replicate gNumberOfPlayersInGame none) m.intermediateBuffer
  return (players, { m with intermediateBuffer := [], assembled := m.assembled ++ [players] })

/-- `OnConnectionClosed`: the number of entries erased, and the match maker
after the call. -/
def onConnectionClosed (closed : ConnId → Bool) (id : ConnId) (m : MatchMaker) :
    Except Fault (Nat × MatchMaker) := do
  let (kept, erased) ← scan closed id m.intermediateBuffer
  return (erased.length, { m with intermediateBuffer := kept, erased := m.erased ++ erased })

theorem moveInto_of_length {α : Type} {players : List (Option α)} {xs : List α}
    (h : xs.length = players.length) : moveInto players xs = .ok (xs.map some) := by
  induction xs generalizing players with
  | nil => rw [List.length_eq_zero_iff.mp h.symm]; rfl
  | cons x xs ih =>
    obtain _ | ⟨p, players⟩ := players
    · simp at h
    · simp [moveInto, ih (by simpa using h), bind, Except.bind, pure, Except.pure]

/-- A full buffer becomes a group without null entries. -/
theorem assembleGame_of_full {m : MatchMaker} (h : m.intermediateBuffer.length = gNumberOfPlayersInGame) :
    m.assembleGame = .ok (m.intermediateBuffer.map some,
      { m with intermediateBuffer := [], assembled := m.assembled ++ [m.intermediateBuffer.map some] }) := by
  rw [assembleGame, moveInto_of_length (by rw [List.length_replicate, h])]
  rfl

/-- What a scan that does not abort does to the match maker. -/
theorem onConnectionClosed_ok {closed : ConnId → Bool} {id : ConnId} {m m' : MatchMaker} {n : Nat}
    (h : m.onConnectionClosed closed id = .ok (n, m')) :
    m' = { m with
      intermediateBuffer := m.intermediateBuffer.filter (fun w => !closed w.id)
      erased := m.erased ++ m.intermediateBuffer.filter (fun w => closed w.id) } := by
  unfold onConnectionClosed at h
  cases hs : scan closed id m.intermediateBuffer with
  | error f => simp [hs, bind, Except.bind] at h
  | ok p =>
    obtain ⟨hkept, herased⟩ := scan_ok hs
    simp only [hs, bind, Except.bind, pure, Except.pure, Except.ok.injEq, Prod.mk.injEq] at h
    rw [← h.2, hkept, herased]

theorem onConnectionClosed_isOk {closed : ConnId → Bool} {id : ConnId} {m : MatchMaker}
    (h : ∀ w ∈ m.intermediateBuffer, closed w.id = true → w.id = id) :
    ∃ n m', m.onConnectionClosed closed id = .ok (n, m') := by
  obtain ⟨p, hp⟩ := scan_isOk h
  exact ⟨_, _, by rw [onConnectionClosed, hp]; rfl⟩

end MatchMaker

end PokerEngine
