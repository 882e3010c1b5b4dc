import Mathlib.Data.Nat.Basic
import Mathlib.Order.MinMax
import Mathlib.Tactic.Ring

/-!
# Saturating and wrapping arithmetic on fixed-width unsigned words

An unsigned word of `w` bits is modelled by a natural number, and the operations of the machine
are written out with their clipping:

* `satAdd w` — addition that stops at `maxValue w`;
* `satMul w` — multiplication that stops at `maxValue w`;
* `wrapAdd w`, `wrapMul w` — addition and multiplication modulo `2 ^ w`;
* `checkedAdd w`, `checkedSub` — addition and subtraction that have no result if it does not fit.

Saturating subtraction needs no definition of its own: it is the truncated subtraction of `ℕ`.

Every operation agrees with the exact one as long as the exact result fits the word
(`satAdd_of_lt`, `wrapAdd_of_lt`); the remaining lemmas say what is left of the
exact laws when it does not fit.
-/

namespace Bounded

/-- The largest value of an unsigned word of `w` bits. -/
def maxValue (w : ℕ) : ℕ := 2 ^ w - 1

/-- Addition that saturates at the largest `w`-bit value. -/
def satAdd (w a b : ℕ) : ℕ := min (a + b) (maxValue w)

/-- Multiplication that saturates at the largest `w`-bit value. -/
def satMul (w a b : ℕ) : ℕ := min (a * b) (maxValue w)

/-- Addition modulo `2 ^ w`. -/
def wrapAdd (w a b : ℕ) : ℕ := (a + b) % 2 ^ w

/-- Multiplication modulo `2 ^ w`. -/
def wrapMul (w a b : ℕ) : ℕ := a * b % 2 ^ w

/-- Addition that fails if the sum does not fit `w` bits. -/
def checkedAdd (w a b : ℕ) : Option ℕ := if a + b < 2 ^ w then some (a + b) else none

/-- Subtraction that fails if the difference would be negative. -/
def checkedSub (a b : ℕ) : Option ℕ := if b ≤ a then some (a - b) else none

variable {w a b c : ℕ}

theorem checkedAdd_eq_some : checkedAdd w a b = some c ↔ a + b < 2 ^ w ∧ c = a + b := by
  unfold checkedAdd
  split
  · next hfits => simp [hfits, eq_comm]
  · next hfits => simp [hfits]

theorem checkedAdd_eq_none : checkedAdd w a b = none ↔ 2 ^ w ≤ a + b := by
  unfold checkedAdd
  split
  · next hfits => simp [hfits]
  · next hfits => simpa using hfits

theorem checkedSub_eq_some : checkedSub a b = some c ↔ b ≤ a ∧ c = a - b := by
  unfold checkedSub
  split
  · next hle => simp [hle, eq_comm]
  · next hle => simp [hle]

theorem maxValue_lt (w : ℕ) : maxValue w < 2 ^ w :=
  Nat.sub_lt (Nat.two_pow_pos w) Nat.one_pos

theorem lt_two_pow_iff : a < 2 ^ w ↔ a ≤ maxValue w := by
  have h := Nat.two_pow_pos w
  unfold maxValue
  omega

theorem satAdd_of_lt (h : a + b < 2 ^ w) : satAdd w a b = a + b :=
  min_eq_left (lt_two_pow_iff.mp h)

theorem wrapAdd_of_lt (h : a + b < 2 ^ w) : wrapAdd w a b = a + b :=
  Nat.mod_eq_of_lt h

theorem satAdd_le_add (w a b : ℕ) : satAdd w a b ≤ a + b :=
  min_le_left _ _

theorem satAdd_le_maxValue (w a b : ℕ) : satAdd w a b ≤ maxValue w :=
  min_le_right _ _

/-- A saturating sum below some bound that is itself a word is the exact sum. -/
theorem satAdd_of_lt_bound (h : satAdd w a b < c) (hc : c < 2 ^ w) : satAdd w a b = a + b := by
  rw [lt_two_pow_iff] at hc
  unfold satAdd at h ⊢
  omega

theorem le_satAdd (h : a ≤ maxValue w) : a ≤ satAdd w a b :=
  le_min (Nat.le_add_right a b) h

@[simp] theorem satAdd_zero (h : a ≤ maxValue w) : satAdd w a 0 = a :=
  min_eq_left h

/-- A saturating addition leaves a word where it is exactly when nothing is added or the word is
already the largest one. -/
theorem satAdd_eq_left_iff (h : a ≤ maxValue w) :
    satAdd w a b = a ↔ b = 0 ∨ a = maxValue w := by
  unfold satAdd
  omega

theorem satAdd_mono {d : ℕ} (hac : a ≤ c) (hbd : b ≤ d) : satAdd w a b ≤ satAdd w c d :=
  min_le_min_right _ (Nat.add_le_add hac hbd)

theorem satMul_mono_left (h : a ≤ b) : satMul w a c ≤ satMul w b c :=
  min_le_min_right _ (Nat.mul_le_mul_right c h)

/-- Adding twice is adding the sum. -/
theorem satAdd_satAdd (w a b c : ℕ) : satAdd w (satAdd w a b) c = satAdd w a (b + c) := by
  unfold satAdd
  omega

end Bounded
