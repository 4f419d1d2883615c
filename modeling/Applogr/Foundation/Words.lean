import Mathlib.Algebra.Ring.Int.Defs
import Mathlib.Tactic.Common

/-!
# Machine integers

Adding an integer to a word adds it to the value of the word, unless the sum does not fit.
-/

theorem Int64.toInt_add_ofInt (x : Int64) {c : Int} (h₀ : 0 ≤ c) (h₁ : c < 2 ^ 63) :
  (x + Int64.ofInt c).toInt
    = if x.toInt + c < 2 ^ 63 then x.toInt + c else x.toInt + c - 2 ^ 64
  := by
  have hx := x.toInt_lt
  have hx' := x.le_toInt
  rw [Int64.toInt_add, Int64.toInt_ofInt_of_le (by omega) (by omega)]
  split
  · rw [Int.bmod_eq_of_le]
    · omega
    · omega
  · rw [Int.bmod_def]
    omega

/-- Adding an integer adds no more than the integer. -/
theorem Int64.toInt_add_ofInt_le (x : Int64) {c : Int} (h₀ : 0 ≤ c) (h₁ : c < 2 ^ 63) :
  (x + Int64.ofInt c).toInt - x.toInt ≤ c
  := by
  rw [Int64.toInt_add_ofInt x h₀ h₁]
  split <;> omega

/-- The difference of two words that are not negative fits. -/
theorem Int64.toInt_sub_of_nonneg {a b : Int64} (ha : 0 ≤ a.toInt) (hb : 0 ≤ b.toInt) :
  (b - a).toInt = b.toInt - a.toInt
  := by
  have ha' := a.toInt_lt
  have hb' := b.toInt_lt
  rw [Int64.toInt_sub]
  apply Int.bmod_eq_of_le
  · omega
  · omega

/-- Adding the time from `a` to `b` makes a time larger, exactly when `b` is not before `a` and the
sum fits. -/
theorem Int64.le_add_sub_iff {u a b : Int64} (hu : 0 ≤ u.toInt) (ha : 0 ≤ a.toInt)
    (hb : 0 ≤ b.toInt) :
  u ≤ u + (b - a) ↔ a.toInt ≤ b.toInt ∧ u.toInt + (b.toInt - a.toInt) < 2 ^ 63
  := by
  have hu' := u.toInt_lt
  have ha' := a.toInt_lt
  have hb' := b.toInt_lt
  rw [Int64.le_iff_toInt_le, Int64.toInt_add, Int64.toInt_sub_of_nonneg ha hb]
  by_cases hfits : u.toInt + (b.toInt - a.toInt) < 2 ^ 63
  · rw [Int.bmod_eq_of_le (by omega) (by omega)]
    omega
  · rw [Int.bmod_def]
    omega

/-- Words made of integers are equal exactly when the integers are congruent. -/
theorem Int32.ofInt_eq_ofInt_iff (a b : Int) :
  Int32.ofInt a = Int32.ofInt b ↔ (2 ^ 32 : Int) ∣ a - b
  := by
  rw [← Int32.toInt_inj, Int32.toInt_ofInt, Int32.toInt_ofInt,
    Int.bmod_eq_bmod_iff_bmod_sub_eq_zero, ← Int.dvd_iff_bmod_eq_zero]
  rfl
