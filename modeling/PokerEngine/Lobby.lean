/-
The lobby (`lobby.h`): the queue of connections waiting for a game, and the
scan that removes a closed one. The match maker's buffer is scanned by the same
code (`removeLambda`).

A connection is known by its id; whether it is closed is a field of the
connection, which all its holders share: here a function of the id. `Push` and
the scan also keep a history, for stating what the queue does over a run: an
entry carries the number of the push that brought it.
-/
import Mathlib.Data.List.Basic

namespace PokerEngine

/-- `Connection::id`. -/
abbrev ConnId := Nat

/-- What ends the program, or leaves the language's defined behaviour. -/
inductive Fault
  | abort
  | pastTheEnd
  | nullDereference
  | useAfterFree
  deriving DecidableEq, Repr

/-- A connection in the queue, and the number of the `Push` that brought it
(history). -/
structure Waiting where
  id : ConnId
  ticket : Nat
  deriving DecidableEq, Repr

/-- The pushes of `values` in this order. -/
def numbered (values : List ConnId) : List Waiting := values.mapIdx fun ticket value => ⟨value, ticket⟩

/-- Entries that carry the numbers of their places are known by their values. -/
theorem numbered_map_id {entries : List Waiting} (h : entries.map Waiting.ticket = List.range entries.length) :
    numbered (entries.map Waiting.id) = entries := by
  refine List.ext_getElem (by simp [numbered]) fun i _ hi => ?_
  have hticket : (entries.map Waiting.ticket)[i]? = (List.range entries.length)[i]? := by rw [h]
  have hat : entries[i].ticket = i := by simpa [hi] using hticket
  simp only [numbered, List.getElem_mapIdx, List.getElem_map]
  rw [Waiting.mk.injEq]
  exact ⟨rfl, hat.symm⟩

/-- The next number is new. -/
theorem fresh_of_tickets {entries : List Waiting} (h : entries.map Waiting.ticket = List.range entries.length)
    (value : ConnId) : (⟨value, entries.length⟩ : Waiting) ∉ entries := by
  intro hmem
  have hticket := List.mem_map_of_mem (f := Waiting.ticket) hmem
  rw [h] at hticket
  simp at hticket

/-- `std::erase_if` with a predicate that may abort: what is kept and what is
erased, each in order. -/
def eraseIf {α : Type} (pred : α → Except Fault Bool) : List α → Except Fault (List α × List α)
  | [] => .ok ([], [])
  | x :: xs => do
    let remove ← pred x
    let (kept, erased) ← eraseIf pred xs
    return if remove then (kept, x :: erased) else (x :: kept, erased)

/-- `remove_lambda` of `OnConnectionClosed(id)`, in the lobby and in the match
maker. -/
def removeLambda (closed : ConnId → Bool) (id : ConnId) (connection : Waiting) : Except Fault Bool :=
  if !closed connection.id then .ok false
  else if connection.id = id then .ok true
  else .error .abort

/-- The body of the two `OnConnectionClosed`, over the entries each stashes. -/
def scan (closed : ConnId → Bool) (id : ConnId) (stash : List Waiting) :
    Except Fault (List Waiting × List Waiting) :=
  if stash.length = 0 then .ok (stash, []) else eraseIf (removeLambda closed id) stash

/-- **What a scan does.** It erases exactly the closed entries, and aborts
exactly when one of them has another id. -/
theorem scan_eq (closed : ConnId → Bool) (id : ConnId) (stash : List Waiting) :
    scan closed id stash =
      if (stash.all fun w => !closed w.id || w.id = id) then
        .ok (stash.filter (fun w => !closed w.id), stash.filter (fun w => closed w.id))
      else .error .abort := by
  have hscan : scan closed id stash = eraseIf (removeLambda closed id) stash := by
    cases stash <;> rfl
  rw [hscan]
  clear hscan
  induction stash with
  | nil => rfl
  | cons w l ih =>
    simp only [eraseIf, ih, List.all_cons, removeLambda]
    by_cases hall : (l.all fun w => !closed w.id || w.id = id) = true
    · simp only [hall, if_true, Bool.and_true]
      cases hc : closed w.id with
      | false => simp [hc, bind, Except.bind, pure, Except.pure]
      | true =>
        by_cases hid : w.id = id
        · subst hid
          simp [hc, bind, Except.bind, pure, Except.pure]
        · simp [hid, bind, Except.bind]
    · simp only [hall, Bool.and_false]
      cases hc : closed w.id with
      | false => simp [bind, Except.bind]
      | true => by_cases hid : w.id = id <;> simp [hid, bind, Except.bind]

theorem scan_ok {closed : ConnId → Bool} {id : ConnId} {stash kept erased : List Waiting}
    (h : scan closed id stash = .ok (kept, erased)) :
    kept = stash.filter (fun w => !closed w.id) ∧ erased = stash.filter (fun w => closed w.id) := by
  rw [scan_eq] at h
  split at h
  · simp only [Except.ok.injEq, Prod.mk.injEq] at h
    exact ⟨h.1.symm, h.2.symm⟩
  · exact absurd h (by simp)

/-- A scan that meets no closed connection but its own does not abort. -/
theorem scan_isOk {closed : ConnId → Bool} {id : ConnId} {stash : List Waiting}
    (h : ∀ w ∈ stash, closed w.id = true → w.id = id) : ∃ p, scan closed id stash = .ok p := by
  rw [scan_eq, if_pos]
  · exact ⟨_, rfl⟩
  · rw [List.all_eq_true]
    intro w hw
    cases hc : closed w.id with
    | false => rfl
    | true => simpa using h w hw hc

/-- `Lobby`. -/
structure Lobby where
  data : List Waiting
  /-- Every push so far (history). -/
  pushed : List Waiting
  /-- The entries erased by scans of the lobby so far (history). -/
  erased : List Waiting
  deriving DecidableEq, Repr

namespace Lobby

def construct : Lobby := ⟨[], [], []⟩

def empty (l : Lobby) : Bool := l.data.isEmpty

def push (l : Lobby) (value : ConnId) : Lobby :=
  let entry : Waiting := ⟨value, l.pushed.length⟩
  { l with data := l.data ++ [entry], pushed := l.pushed ++ [entry] }

/-- `OnConnectionClosed`: the number of entries erased, and the lobby after the
call. -/
def onConnectionClosed (closed : ConnId → Bool) (id : ConnId) (l : Lobby) : Except Fault (Nat × Lobby) := do
  let (kept, erased) ← scan closed id l.data
  return (erased.length, { l with data := kept, erased := l.erased ++ erased })

/-- What a scan that does not abort does to the lobby. -/
theorem onConnectionClosed_ok {closed : ConnId → Bool} {id : ConnId} {l l' : Lobby} {n : Nat}
    (h : l.onConnectionClosed closed id = .ok (n, l')) :
    l' = { l with
      data := l.data.filter (fun w => !closed w.id)
      erased := l.erased ++ l.data.filter (fun w => closed w.id) } := by
  unfold onConnectionClosed at h
  cases hs : scan closed id l.data with
  | error f => simp [hs, bind, Except.bind] at h
  | ok p =>
    obtain ⟨hkept, herased⟩ := scan_ok hs
    simp only [hs, bind, Except.bind, pure, Except.pure, Except.ok.injEq, Prod.mk.injEq] at h
    rw [← h.2, hkept, herased]

theorem onConnectionClosed_isOk {closed : ConnId → Bool} {id : ConnId} {l : Lobby}
    (h : ∀ w ∈ l.data, closed w.id = true → w.id = id) :
    ∃ n l', l.onConnectionClosed closed id = .ok (n, l') := by
  obtain ⟨p, hp⟩ := scan_isOk h
  exact ⟨_, _, by rw [onConnectionClosed, hp]; rfl⟩

end Lobby

end PokerEngine
