import Mathlib.Data.Nat.Bitwise
import Mathlib.Tactic.Common

/-! # Bit fields of natural numbers as quotients and remainders -/

namespace Words
set_option autoImplicit false

/-- Keeping `w` bits from bit `k` on is rounding down to `2 ^ k` and dropping all above `k + w`. -/
theorem and_field (x w k : Nat) : x &&& (2 ^ w - 1) * 2 ^ k = x / 2 ^ k % 2 ^ w * 2 ^ k := by
  apply Nat.eq_of_testBit_eq
  intro i
  simp only [Nat.testBit_and, Nat.testBit_mul_two_pow, Nat.testBit_two_pow_sub_one,
    Nat.testBit_mod_two_pow, Nat.testBit_div_two_pow]
  by_cases hi : k ≤ i
  · rw [Nat.sub_add_cancel hi, Bool.and_left_comm, Bool.and_comm (x.testBit i)]
  · simp [hi]

theorem or_eq_add {a b : Nat} (k : Nat) (ha : 2 ^ k ∣ a) (hb : b < 2 ^ k) : a ||| b = a + b := by
  obtain ⟨q, rfl⟩ := ha
  exact (Nat.two_pow_add_eq_or_of_lt hb q).symm

theorem shift_and (x k w : Nat) : x >>> k &&& 2 ^ w - 1 = x / 2 ^ k % 2 ^ w := by
  rw [Nat.and_two_pow_sub_one_eq_mod, Nat.shiftRight_eq_div_pow]

end Words
