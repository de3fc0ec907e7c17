/-
Reading an unsigned number from the start of a string, in the two ways of the
C++ library: `std::stoull`, which passes over white space and takes a sign, and
`std::from_chars`, which does neither and leaves its argument alone when it
finds no number.

`fromChars_eq_iff` is when the two agree; `stoull_toDigits` is the round trip of
decimal numerals.
-/
import Mathlib.Algebra.Order.Ring.Nat
import Mathlib.Data.List.TakeWhile

namespace PokerEngine.Numerals

/-- What `std::stoull` throws. -/
inductive ReadError
  | invalidArgument
  | outOfRange
  deriving DecidableEq, Repr

/-- `isspace`, in the locale that a program starts in. -/
def isSpace (c : Char) : Bool :=
  c.toNat = 32 || (9 ≤ c.toNat && c.toNat ≤ 13)

/-- The longest prefix of digits. -/
def digits (s : List Char) : List Char := s.takeWhile Char.isDigit

/-- The number written there. -/
def value (s : List Char) : Nat := Nat.ofDigitChars 10 (digits s) 0

/-- The sign, when there is one, and what comes after it: `true` for a minus. -/
def takeSign : List Char → Bool × List Char
  | [] => (false, [])
  | c :: s => if c = '-' then (true, s) else if c = '+' then (false, s) else (false, c :: s)

/-- `std::stoull`, for numbers of `w` bits. A number with a minus is negated
within the type. -/
def stoull (w : Nat) (s : List Char) : Except ReadError Nat :=
  let (negative, s) := takeSign (s.dropWhile isSpace)
  if digits s = [] then .error .invalidArgument
  else if 2 ^ w ≤ value s then .error .outOfRange
  else .ok (if negative then (2 ^ w - value s) % 2 ^ w else value s)

/-- `std::from_chars`, for numbers of `w` bits: what the argument holds after the
call, `old` before it. -/
def fromChars (w : Nat) (s : List Char) (old : Nat) : Nat :=
  if digits s = [] ∨ 2 ^ w ≤ value s then old else value s

/-- The string starts with a digit. -/
def StartsWithDigit (s : List Char) : Prop := ∃ c ∈ s.head?, c.isDigit = true

instance (s : List Char) : Decidable (StartsWithDigit s) :=
  match s with
  | [] => isFalse (by simp [StartsWithDigit])
  | c :: _ => decidable_of_iff (c.isDigit = true) (by simp [StartsWithDigit])

section

variable {w n : Nat} {s : List Char}

@[simp] theorem startsWithDigit_cons {c : Char} : StartsWithDigit (c :: s) ↔ c.isDigit = true := by
  simp [StartsWithDigit]

theorem digits_eq_nil_iff : digits s = [] ↔ ¬ StartsWithDigit s := by
  cases s with
  | nil => simp [digits, StartsWithDigit]
  | cons c s => cases hc : c.isDigit <;> simp [digits, hc]

/-- A digit is neither white space nor a sign. -/
theorem takeSign_of_digit (h : StartsWithDigit s) : takeSign (s.dropWhile isSpace) = (false, s) := by
  cases s with
  | nil => simp [StartsWithDigit] at h
  | cons c s =>
    rw [startsWithDigit_cons, Char.isDigit_iff_toNat] at h
    have hrange : 48 ≤ c.toNat ∧ c.toNat ≤ 57 := h
    have hspace : isSpace c = false := by
      simp [isSpace]
      omega
    have hminus : c ≠ '-' := fun he => by simp [he] at h
    have hplus : c ≠ '+' := fun he => by simp [he] at h
    simp [hspace, takeSign, hminus, hplus]

/-- With a digit in front, `std::stoull` reads what `std::from_chars` reads. -/
theorem stoull_of_digit (h : StartsWithDigit s) :
    stoull w s = if 2 ^ w ≤ value s then .error .outOfRange else .ok (value s) := by
  have hdigits : digits s ≠ [] := fun hnil => digits_eq_nil_iff.mp hnil h
  simp [stoull, takeSign_of_digit h, hdigits]

theorem fromChars_of_digit (h : StartsWithDigit s) (hn : stoull w s = .ok n) (old : Nat) :
    fromChars w s old = n := by
  have hdigits : digits s ≠ [] := fun hnil => digits_eq_nil_iff.mp hnil h
  rw [stoull_of_digit h] at hn
  split at hn
  next => simp at hn
  next hrange =>
    simp only [Except.ok.injEq] at hn
    rw [fromChars, if_neg (by simp only [hdigits, hrange, or_self, not_false_eq_true]), hn]

theorem fromChars_of_not_digit (h : ¬ StartsWithDigit s) (old : Nat) : fromChars w s old = old := by
  simp [fromChars, digits_eq_nil_iff.mpr h]

/-- **When the two agree** on a string that `std::stoull` accepts, the variable of
`std::from_chars` starting at 0. -/
theorem fromChars_eq_iff (hn : stoull w s = .ok n) : fromChars w s 0 = n ↔ StartsWithDigit s ∨ n = 0 := by
  by_cases h : StartsWithDigit s
  · simp [h, fromChars_of_digit h hn]
  · simp [h, fromChars_of_not_digit h, eq_comm]

/-! ## Decimal numerals -/

theorem startsWithDigit_toDigits (n : Nat) : StartsWithDigit (Nat.toDigits 10 n) := by
  cases h : Nat.toDigits 10 n with
  | nil => exact absurd h Nat.toDigits_ne_nil
  | cons c s =>
    rw [startsWithDigit_cons]
    exact Nat.isDigit_of_mem_toDigits (by decide) (by decide) (h ▸ List.mem_cons_self)

theorem value_toDigits (n : Nat) : value (Nat.toDigits 10 n) = n := by
  have hall : digits (Nat.toDigits 10 n) = Nat.toDigits 10 n :=
    List.takeWhile_eq_self_iff.mpr fun c hc => Nat.isDigit_of_mem_toDigits (by decide) (by decide) hc
  rw [value, hall, Nat.ofDigitChars_ten_toDigits]

/-- **The round trip of a decimal numeral**, through `std::stoull`. -/
theorem stoull_toDigits (h : n < 2 ^ w) : stoull w (Nat.toDigits 10 n) = .ok n := by
  rw [stoull_of_digit (startsWithDigit_toDigits n), value_toDigits, if_neg (Nat.not_le.mpr h)]

end

end PokerEngine.Numerals
