/-
What a step of a game's thread can be. The other modules go by these cases, and
do not open `step`.
-/
import PokerEngine.MatchConductor

namespace PokerEngine

namespace MatchConductor

/-- The steps of a game's thread, with what each does outside the conductor. -/
inductive ThreadStep (closed alive : ConnId → Bool) (m : MatchConductor) : MatchConductor → Effect → Prop
  | stopped (place : m.pc = .head) (stop : m.stop = true) : ThreadStep closed alive m (m.goto .returned) .silent
  | begins (place : m.pc = .head) (stop : m.stop = false) : ThreadStep closed alive m (m.goto (.welcome 0)) .silent
  | welcomed (i : Nat) (place : m.pc = .welcome i) (past : m.players[i]? = none) :
    ThreadStep closed alive m (m.goto .sleep) .silent
  | greets (i : Nat) (p : ConnId) (place : m.pc = .welcome i) (player : m.players[i]? = some (some p))
      (live : alive p = true) :
    ThreadStep closed alive m ((m.send p (.welcome p)).goto (.welcome (i + 1))) .silent
  | misses (i : Nat) (p : ConnId) (place : m.pc = .welcome i) (player : m.players[i]? = some (some p))
      (gone : alive p = false) :
    ThreadStep closed alive m (m.goto .playerLeft) .silent
  | leaves (place : m.pc = .playerLeft) :
    ThreadStep closed alive m { m with finishReason := .playerLeft, pc := .finish 0 true } .silent
  | wakes (place : m.pc = .sleep) : ThreadStep closed alive m (m.goto (.finish 0 false)) .silent
  | finished (i : Nat) (left : Bool) (place : m.pc = .finish i left) (past : m.players[i]? = none) :
    ThreadStep closed alive m (m.goto (.clear left)) .silent
  | skips (i : Nat) (left : Bool) (p : ConnId) (place : m.pc = .finish i left)
      (player : m.players[i]? = some (some p)) (shut : closed p = true) :
    ThreadStep closed alive m (m.goto (.finish (i + 1) left)) .silent
  | meets (i : Nat) (left : Bool) (p : ConnId) (place : m.pc = .finish i left)
      (player : m.players[i]? = some (some p)) (opened : closed p = false) :
    ThreadStep closed alive m (m.goto (.notify i left)) .silent
  | notifies (i : Nat) (left : Bool) (p : ConnId) (place : m.pc = .notify i left)
      (player : m.players[i]? = some (some p)) (live : alive p = true) :
    ThreadStep closed alive m ((m.send p (.finish m.finishReason)).goto (.testStop i left)) .silent
  | cannotNotify (i : Nat) (left : Bool) (p : ConnId) (place : m.pc = .notify i left)
      (player : m.players[i]? = some (some p)) (gone : alive p = false) :
    ThreadStep closed alive m (m.goto (.testStop i left)) .silent
  | keeps (i : Nat) (left : Bool) (place : m.pc = .testStop i left) (stop : m.stop = true) :
    ThreadStep closed alive m (m.goto (.finish (i + 1) left)) .silent
  | moves (i : Nat) (left : Bool) (p : ConnId) (place : m.pc = .testStop i left)
      (player : m.players[i]? = some (some p)) (stop : m.stop = false) :
    ThreadStep closed alive m { m with players := m.players.set i none, pc := .pushLock i left p } .silent
  | locks (i : Nat) (left : Bool) (p : ConnId) (place : m.pc = .pushLock i left p) :
    ThreadStep closed alive m (m.goto (.push i left p)) .lockLobby
  | pushes (i : Nat) (left : Bool) (p : ConnId) (place : m.pc = .push i left p) :
    ThreadStep closed alive m (m.goto (.finish (i + 1) left)) (.push p)
  | clears (left : Bool) (place : m.pc = .clear left) :
    ThreadStep closed alive m { m with players := [], pc := .setStop left } .silent
  | setsStop (left : Bool) (place : m.pc = .setStop left) :
    ThreadStep closed alive m { m with stop := true, pc := if left then .returned else .head } .silent
  | fails (started : m.pc ≠ .unstarted) (running : m.pc ≠ .returned) :
    ThreadStep closed alive m m (.fault .nullDereference)

theorem step_cases {closed alive : ConnId → Bool} {m m' : MatchConductor} {e : Effect}
    (h : m.step closed alive = some (m', e)) : ThreadStep closed alive m m' e := by
  unfold step at h
  cases hpc : m.pc <;> simp only [hpc] at h
  case unstarted => simp at h
  case returned => simp at h
  case head =>
    obtain ⟨rfl, rfl⟩ := Prod.mk.inj (Option.some.inj h)
    split
    · next hstop => exact .stopped hpc hstop
    · next hstop => exact .begins hpc (Bool.not_eq_true _ ▸ hstop)
  case welcome i =>
    split at h
    · next hpast =>
      obtain ⟨rfl, rfl⟩ := Prod.mk.inj (Option.some.inj h)
      exact .welcomed i hpc hpast
    · obtain ⟨rfl, rfl⟩ := Prod.mk.inj (Option.some.inj h)
      exact .fails (by simp [hpc]) (by simp [hpc])
    · next p hplayer =>
      split at h
      · next hlive =>
        obtain ⟨rfl, rfl⟩ := Prod.mk.inj (Option.some.inj h)
        exact .greets i p hpc hplayer hlive
      · next hgone =>
        obtain ⟨rfl, rfl⟩ := Prod.mk.inj (Option.some.inj h)
        exact .misses i p hpc hplayer (Bool.not_eq_true _ ▸ hgone)
  case playerLeft =>
    obtain ⟨rfl, rfl⟩ := Prod.mk.inj (Option.some.inj h)
    exact .leaves hpc
  case sleep =>
    obtain ⟨rfl, rfl⟩ := Prod.mk.inj (Option.some.inj h)
    exact .wakes hpc
  case finish i left =>
    split at h
    · next hpast =>
      obtain ⟨rfl, rfl⟩ := Prod.mk.inj (Option.some.inj h)
      exact .finished i left hpc hpast
    · obtain ⟨rfl, rfl⟩ := Prod.mk.inj (Option.some.inj h)
      exact .fails (by simp [hpc]) (by simp [hpc])
    · next p hplayer =>
      obtain ⟨rfl, rfl⟩ := Prod.mk.inj (Option.some.inj h)
      split
      · next hshut => exact .skips i left p hpc hplayer hshut
      · next hopen => exact .meets i left p hpc hplayer (Bool.not_eq_true _ ▸ hopen)
  case notify i left =>
    split at h
    · next p hplayer =>
      obtain ⟨rfl, rfl⟩ := Prod.mk.inj (Option.some.inj h)
      split
      · next hlive => exact .notifies i left p hpc hplayer hlive
      · next hgone => exact .cannotNotify i left p hpc hplayer (Bool.not_eq_true _ ▸ hgone)
    · obtain ⟨rfl, rfl⟩ := Prod.mk.inj (Option.some.inj h)
      exact .fails (by simp [hpc]) (by simp [hpc])
  case testStop i left =>
    split at h
    · next hstop =>
      obtain ⟨rfl, rfl⟩ := Prod.mk.inj (Option.some.inj h)
      exact .keeps i left hpc hstop
    · next hstop =>
      split at h
      · next p hplayer =>
        obtain ⟨rfl, rfl⟩ := Prod.mk.inj (Option.some.inj h)
        exact .moves i left p hpc hplayer (Bool.not_eq_true _ ▸ hstop)
      · obtain ⟨rfl, rfl⟩ := Prod.mk.inj (Option.some.inj h)
        exact .fails (by simp [hpc]) (by simp [hpc])
  case pushLock i left p =>
    obtain ⟨rfl, rfl⟩ := Prod.mk.inj (Option.some.inj h)
    exact .locks i left p hpc
  case push i left p =>
    obtain ⟨rfl, rfl⟩ := Prod.mk.inj (Option.some.inj h)
    exact .pushes i left p hpc
  case clear left =>
    obtain ⟨rfl, rfl⟩ := Prod.mk.inj (Option.some.inj h)
    exact .clears left hpc
  case setStop left =>
    obtain ⟨rfl, rfl⟩ := Prod.mk.inj (Option.some.inj h)
    exact .setsStop left hpc

/-- A thread that steps was started, and a step takes back neither the stop nor
the deletion of its conductor. -/
theorem step_keeps {closed alive : ConnId → Bool} {m m' : MatchConductor} {e : Effect}
    (h : m.step closed alive = some (m', e)) :
    m'.destroyed = m.destroyed ∧ (m.stop = true → m'.stop = true) ∧ m.pc ≠ .unstarted ∧ m.pc ≠ .returned := by
  cases step_cases h with
  | fails started running => exact ⟨rfl, id, started, running⟩
  | setsStop left place => exact ⟨rfl, fun _ => rfl, by simp [place], by simp [place]⟩
  | stopped place | begins place | welcomed _ place | greets _ _ place | misses _ _ place | leaves place | wakes place
  | finished _ _ place | skips _ _ _ place | meets _ _ _ place | notifies _ _ _ place | cannotNotify _ _ _ place
  | keeps _ _ place | moves _ _ _ place | locks _ _ _ place | pushes _ _ _ place | clears _ place =>
    exact ⟨rfl, id, by simp [place], by simp [place]⟩

theorem step_started {closed alive : ConnId → Bool} {m m' : MatchConductor} {e : Effect}
    (h : m.step closed alive = some (m', e)) : m'.pc ≠ .unstarted := by
  cases step_cases h with
  | fails started => exact started
  | setsStop left => cases left <;> simp
  | _ => exact nofun

theorem step_fault {closed alive : ConnId → Bool} {m m' : MatchConductor} {f : Fault}
    (h : m.step closed alive = some (m', .fault f)) : f ≠ .abort := by
  cases step_cases h with
  | fails => exact nofun

/-- A step pushes a player exactly at the place of the push. -/
theorem step_push {closed alive : ConnId → Bool} {m m' : MatchConductor} {e : Effect}
    (h : m.step closed alive = some (m', e)) (v : ConnId) : e = .push v ↔ ∃ i left, m.pc = .push i left v := by
  constructor
  · rintro rfl
    cases step_cases h with
    | pushes i left _ place => exact ⟨i, left, place⟩
  · rintro ⟨i, left, place⟩
    simp only [step, place, Option.some.injEq, Prod.mk.injEq] at h
    exact h.2.symm

end MatchConductor

end PokerEngine
