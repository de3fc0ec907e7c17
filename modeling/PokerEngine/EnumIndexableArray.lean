/-
Arrays indexed by an enumeration (`enum_indexable_array.h`): one stored value
for each member, in the order of the members' underlying numbers.

`get`, `modify` and `returnEnumFor` reach a slot by its member. Under `Indexed`
the same operations reach it by its number, and name the number when no slot
has it; `modify_eq`, `returnEnumFor_eq` and `fill_eq` say that this does not
happen.
-/
import Mathlib.Data.Fin.Tuple.Basic
import Mathlib.Logic.Equiv.Defs
import Mathlib.Data.List.FinRange
import PokerEngine.CheckedAccess

namespace PokerEngine

/-- An enumeration with `n` members numbered `0 … n - 1`: `numbering` is
`std::to_underlying`, its inverse `static_cast<EnumType>`. -/
class EnumClass (ε : Type) (n : outParam Nat) where
  numbering : ε ≃ Fin n

/-- `std::to_underlying(e)`. -/
def EnumClass.toUnderlying {ε : Type} {n : Nat} [EnumClass ε n] (e : ε) : Nat :=
  (EnumClass.numbering e : Fin n).val

/-- `enum_indexable_array<EnumType, StoredType, N>`. -/
structure EnumIndexableArray (ε α : Type) (n : Nat) [EnumClass ε n] where
  data : Vector α n

namespace EnumIndexableArray

variable {ε α : Type} {n : Nat} [EnumClass ε n]

/-- `array[e]`. -/
def get (a : EnumIndexableArray ε α n) (e : ε) : α := a.data[EnumClass.numbering e]

/-- `array[e] = f(array[e])`. -/
def modify (a : EnumIndexableArray ε α n) (e : ε) (f : α → α) : EnumIndexableArray ε α n :=
  ⟨a.data.set (EnumClass.numbering e) (f (a.get e))⟩

/-- Every slot holding `x`. -/
def filled (x : α) : EnumIndexableArray ε α n := ⟨Vector.replicate n x⟩

/-- The first member, in numbering order, whose slot satisfies `pred`. -/
def returnEnumFor (a : EnumIndexableArray ε α n) (pred : α → Bool) : Option ε :=
  ((List.finRange n).find? fun i => pred a.data[i]).map EnumClass.numbering.symm

@[simp] theorem get_filled (x : α) (e : ε) : (filled x : EnumIndexableArray ε α n).get e = x := by
  simp [get, filled]

theorem get_modify [DecidableEq ε] (a : EnumIndexableArray ε α n) (e e' : ε) (f : α → α) :
    (a.modify e f).get e' = if e' = e then f (a.get e) else a.get e' := by
  by_cases he : e' = e
  · subst he; simp [get, modify]
  · have hne : (EnumClass.numbering e : Fin n).val ≠ (EnumClass.numbering e' : Fin n).val :=
      fun h => he (EnumClass.numbering.injective (Fin.ext h.symm))
    simp [get, modify, he, hne]

theorem returnEnumFor_isSome {a : EnumIndexableArray ε α n} {pred : α → Bool} :
    (a.returnEnumFor pred).isSome = true ↔ ∃ e, pred (a.get e) = true := by
  simp only [returnEnumFor, Option.isSome_map, List.find?_isSome, List.mem_finRange, true_and]
  constructor
  · intro ⟨i, hi⟩
    exact ⟨EnumClass.numbering.symm i, by simpa [get] using hi⟩
  · intro ⟨e, he⟩
    exact ⟨EnumClass.numbering e, he⟩

theorem returnEnumFor_none {a : EnumIndexableArray ε α n} {pred : α → Bool} :
    a.returnEnumFor pred = none ↔ ∀ e, pred (a.get e) = false := by
  rw [← Option.not_isSome_iff_eq_none, returnEnumFor_isSome]
  simp

/-- The member returned satisfies `pred`, and no member before it does. -/
theorem returnEnumFor_some {a : EnumIndexableArray ε α n} {pred : α → Bool} {e : ε} :
    a.returnEnumFor pred = some e ↔ pred (a.get e) = true ∧
      ∀ e', EnumClass.toUnderlying e' < EnumClass.toUnderlying e → pred (a.get e') = false := by
  simp only [returnEnumFor, Option.map_eq_some_iff, List.find?_eq_some_iff_getElem,
    List.length_finRange, List.getElem_finRange, EnumClass.toUnderlying]
  constructor
  · rintro ⟨i, ⟨hi, j, hj, rfl, hlt⟩, rfl⟩
    refine ⟨by simpa [get] using hi, fun e' he' => ?_⟩
    simpa [get] using hlt (EnumClass.numbering e').val (by simpa using he')
  · intro ⟨he, hlt⟩
    refine ⟨EnumClass.numbering e, ⟨he, (EnumClass.numbering e).val, by simp, by simp, ?_⟩, by simp⟩
    intro j hj
    have hn : j < n := by omega
    simpa [get] using hlt (EnumClass.numbering.symm ⟨j, hn⟩) (by simpa using hj)

/-! ## Slot by slot -/

namespace Indexed

variable {κ : Type} (fault : Nat → κ)

/-- `data_[index]`, read. -/
def slot (a : EnumIndexableArray ε α n) (index : Nat) : Except κ α :=
  Checked.read (fault index) a.data.toList index

/-- `data_[index] = x`. -/
def setSlot (a : EnumIndexableArray ε α n) (index : Nat) (x : α) : Except κ (EnumIndexableArray ε α n) :=
  if h : index < n then .ok ⟨a.data.set index x h⟩ else .error (fault index)

/-- `array[e] = f(array[e])`. -/
def modify (a : EnumIndexableArray ε α n) (e : ε) (f : α → α) : Except κ (EnumIndexableArray ε α n) := do
  let x ← slot fault a (EnumClass.toUnderlying e)
  setSlot fault a (EnumClass.toUnderlying e) (f x)

/-- `for (i = 0; i < array.size(); i++) array[i] = x`. -/
def fill (a : EnumIndexableArray ε α n) (x : α) : Except κ (EnumIndexableArray ε α n) :=
  Checked.forLoop n (fun i a => setSlot fault a i x) 0 a

/-- `return_enum_for`. -/
def returnEnumFor (a : EnumIndexableArray ε α n) (pred : α → Bool) : Except κ (Option ε) := do
  let index ← Checked.findLoop n (fun i => return pred (← slot fault a i)) 0
  return index.map EnumClass.numbering.symm

theorem slot_eq (a : EnumIndexableArray ε α n) (i : Fin n) : slot fault a i = .ok a.data[i] := by
  rw [slot, Checked.read_eq (by simp)]
  simp

/-- The number of a member is the number of a slot. -/
theorem modify_eq (a : EnumIndexableArray ε α n) (e : ε) (f : α → α) :
    modify fault a e f = .ok (a.modify e f) := by
  have hlt : EnumClass.toUnderlying e < n := (EnumClass.numbering e : Fin n).isLt
  have hslot : slot fault a (EnumClass.toUnderlying e) = .ok (a.get e) := slot_eq fault a (EnumClass.numbering e)
  rw [modify, hslot]
  exact dif_pos hlt

theorem returnEnumFor_eq (a : EnumIndexableArray ε α n) (pred : α → Bool) :
    returnEnumFor fault a pred = .ok (a.returnEnumFor pred) := by
  have htest : ∀ i : Fin n, (do return pred (← slot fault a i) : Except κ Bool) = .ok (pred a.data[i]) := by
    intro i
    rw [slot_eq]
    rfl
  rw [returnEnumFor, Checked.findLoop_eq htest]
  rfl

/-- Whatever the slots held, the loop overwrites them all. -/
theorem fill_eq (a : EnumIndexableArray ε α n) (x : α) : fill fault a x = .ok (filled x) := by
  obtain ⟨a', ha', hx⟩ : ∃ a', Checked.forLoop n (fun i a => setSlot fault a i x) 0 a = .ok a' ∧
      ∀ j (h : j < n), j < n → a'.data[j] = x := by
    refine Checked.forLoop_ok (fun i (a : EnumIndexableArray ε α n) => ∀ j (h : j < n), j < i → a.data[j] = x)
      ?_ (Nat.zero_le n)
      fun j _ hj => absurd hj (Nat.not_lt_zero j)
    intro i a hi ha
    refine ⟨_, dif_pos hi, fun j hj hji => ?_⟩
    rw [Vector.getElem_set]
    split
    · rfl
    · exact ha j hj (by omega)
  have hdata : a'.data = Vector.replicate n x :=
    Vector.ext fun j hj => by rw [hx j hj hj, Vector.getElem_replicate]
  rw [fill, ha', filled, ← hdata]

end Indexed

end EnumIndexableArray

end PokerEngine
