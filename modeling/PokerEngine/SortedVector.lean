/-
The sorted vector (`sorted_vector.h`): a vector every insertion into which goes
where `std::upper_bound` points, over any element type with an `operator<`.
-/
import PokerEngine.Card
import PokerEngine.StableSort

namespace PokerEngine

/-- `sorted_vector`: its `data_`. A new one is empty. -/
structure SortedVector (α : Type*) where
  data : List α := []

namespace SortedVector

variable {α : Type*} (lt : α → α → Prop) [DecidableRel lt]

def insert (v : SortedVector α) (value : α) : SortedVector α :=
  let position := upperBound lt v.data value
  { data := v.data.insertIdx position value }

def clear (_ : SortedVector α) : SortedVector α := { data := [] }

/-- A call that changes the vector. -/
inductive Call (α : Type*)
  | insert (value : α)
  | clear

def call (v : SortedVector α) : Call α → SortedVector α
  | .insert value => v.insert lt value
  | .clear => v.clear

/-- The vector after `calls`, in order, on a new one. -/
def afterCalls (calls : List (Call α)) : SortedVector α := calls.foldl (call lt) {}

/-- The values inserted since the last `clear`, in order, after one more call. -/
def Call.extend (vs : List α) : Call α → List α
  | .insert value => vs ++ [value]
  | .clear => []

/-- The values that `calls` insert after their last `clear`, in order. -/
def sinceClear (calls : List (Call α)) : List α := calls.foldl Call.extend []

section StrictWeakOrder

variable [IsStrictWeakOrder α lt]

/-- Every call keeps the vector the stable sort of what was inserted. -/
theorem isStableSort_call {v : SortedVector α} {vs : List α} (h : IsStableSort lt vs v.data) (c : Call α) :
    IsStableSort lt (c.extend vs) (v.call lt c).data := by
  cases c with
  | insert value =>
    obtain ⟨hp, hle, hgt⟩ := upperBound_spec h.sorted value
    exact h.insertIdx hp hle hgt
  | clear => exact .nil

theorem isStableSort_afterCalls (calls : List (Call α)) :
    IsStableSort lt (sinceClear calls) (afterCalls lt calls).data := by
  suffices h : ∀ (v : SortedVector α) vs, IsStableSort lt vs v.data →
      IsStableSort lt (calls.foldl Call.extend vs) (calls.foldl (call lt) v).data from h {} [] .nil
  induction calls with
  | nil => exact fun _ _ h => h
  | cons c calls ih => exact fun v vs h => ih _ _ (isStableSort_call lt h c)

end StrictWeakOrder

/-- The hands the vector collects are listed as the evaluator expects them. -/
theorem ascending_afterCalls (calls : List (Call Card)) : Card.Ascending (afterCalls Card.lt calls).data :=
  (isStableSort_afterCalls Card.lt calls).sorted

/-- The same cards in another order make the same hand. -/
theorem afterCalls_eq_of_perm {calls calls' : List (Call Card)} (h : (sinceClear calls).Perm (sinceClear calls')) :
    afterCalls Card.lt calls = afterCalls Card.lt calls' := by
  have hs := isStableSort_afterCalls Card.lt calls
  have hs' := isStableSort_afterCalls Card.lt calls'
  have hanti (c d : Card) (hdc : ¬ d.lt c) (hcd : ¬ c.lt d) : c = d :=
    Std.Trichotomous.trichotomous c d hcd hdc
  have hperm := hs.perm.trans (h.trans hs'.perm.symm)
  exact congrArg SortedVector.mk (hperm.eq_of_pairwise (fun c d _ _ => hanti c d) hs.sorted hs'.sorted)

/-- Over any strict weak order the contents are in order after every sequence
of calls, and are the stable sort of what was inserted since the last `clear`.
The order of cards is a strict total order whose ties are `operator==`, so that
the contents do not depend on the order of the cards inserted. -/
theorem data_eq_mergeSort.{u} :
    (∀ (α : Type u) (lt : α → α → Prop) [DecidableRel lt] [IsStrictWeakOrder α lt] (calls : List (Call α)),
      Nondescending lt (afterCalls lt calls).data ∧
      (afterCalls lt calls).data = (sinceClear calls).mergeSort (fun a b => ¬ lt b a) ∧
      IsStableSort lt (sinceClear calls) (afterCalls lt calls).data) ∧
    IsStrictTotalOrder Card Card.lt ∧
    (∀ c d : Card, (¬ c.lt d ∧ ¬ d.lt c) ↔ (c == d) = true) ∧
    ∀ calls calls' : List (Call Card), (sinceClear calls).Perm (sinceClear calls') →
      (afterCalls Card.lt calls).data = (afterCalls Card.lt calls').data := by
  refine ⟨fun α lt _ _ calls => ?_, inferInstance, fun _ _ => Card.incomp_iff_beq,
    fun calls calls' h => congrArg data (afterCalls_eq_of_perm h)⟩
  have h := isStableSort_afterCalls lt calls
  exact ⟨h.sorted, h.unique (.mergeSort _), h⟩

/-- Compared by rank alone, two tens stay in the order they came; compared as
cards, they do not depend on it. -/
theorem data_eq_mergeSort_tens :
    (afterCalls (fun c d : Card => c.rank.toNat < d.rank.toNat)
      [.insert ⟨.clubs, .ace⟩, .clear, .insert ⟨.hearts, .ten⟩, .insert ⟨.clubs, .two⟩,
        .insert ⟨.spades, .ten⟩]).data = [⟨.clubs, .two⟩, ⟨.hearts, .ten⟩, ⟨.spades, .ten⟩] ∧
    (afterCalls Card.lt [.insert ⟨.hearts, .ten⟩, .insert ⟨.clubs, .two⟩, .insert ⟨.spades, .ten⟩]).data =
      (afterCalls Card.lt [.insert ⟨.spades, .ten⟩, .insert ⟨.hearts, .ten⟩, .insert ⟨.clubs, .two⟩]).data := by
  have : IsStrictWeakOrder Card (fun c d => c.rank.toNat < d.rank.toNat) :=
    { irrefl := fun _ => Nat.lt_irrefl _
      trans := fun _ _ _ => Nat.lt_trans
      incomp_trans := by omega }
  constructor
  · refine (data_eq_mergeSort.1 Card (fun c d => c.rank.toNat < d.rank.toNat) _).2.1.trans ?_
    have htwo : Card.Rank.two.toNat = 0 := rfl
    have hten : Card.Rank.ten.toNat = 8 := rfl
    simp [sinceClear, Call.extend, List.mergeSort, List.MergeSort.Internal.splitInTwo, htwo, hten]
  · exact data_eq_mergeSort.{0}.2.2.2 _ _ (by decide)

end SortedVector

end PokerEngine
