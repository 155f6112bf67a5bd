import Mathlib.Data.Nat.Bitwise
import Mathlib.Tactic.Ring

/-!
# Masks and shifts as arithmetic

Bit operations of C code on 64-bit values, read as divisions and remainders by
powers of two.
-/

namespace DexprOS
namespace BitMask

section BitMask

/-- Clearing the low `k` bits rounds down to a multiple of `2 ^ k`. -/
theorem and_high_mask
    {x k : Nat} (hx : x < 2 ^ 64) (hk : k ≤ 64) :
    x &&& (2 ^ 64 - 2 ^ k) = x / 2 ^ k * 2 ^ k := by
  have hmask : 2 ^ 64 - 2 ^ k = (2 ^ (64 - k) - 1) * 2 ^ k := by
    rw [Nat.sub_mul, ← pow_add, Nat.sub_add_cancel hk, Nat.one_mul]
  apply Nat.eq_of_testBit_eq
  intro i
  rw [Nat.testBit_and, hmask, Nat.testBit_mul_two_pow, Nat.testBit_mul_two_pow,
    Nat.testBit_two_pow_sub_one, Nat.testBit_div_two_pow]
  by_cases hki : k ≤ i
  · by_cases hi : i < 64
    · simp [hki, show i - k < 64 - k by omega]
    · have hzero : x.testBit i = false :=
        Nat.testBit_lt_two_pow
          (lt_of_lt_of_le hx (Nat.pow_le_pow_right (by decide) (by omega)))
      simp [hki, hzero]
  · simp [hki]

/-- The `k` bits above position `s`. -/
theorem shiftRight_and_low_mask
    (x s k : Nat) :
    (x >>> s) &&& (2 ^ k - 1) = x / 2 ^ s % 2 ^ k := by
  rw [Nat.and_two_pow_sub_one_eq_mod, Nat.shiftRight_eq_div_pow]

/-- Setting the lowest bit. -/
theorem or_one (x : Nat) : x ||| 1 = x / 2 * 2 + 1 := by
  apply Nat.eq_of_testBit_eq
  intro i
  cases i with
  | zero =>
      rw [Nat.testBit_or, Nat.testBit_zero, Nat.testBit_zero, Nat.testBit_zero,
        show (x / 2 * 2 + 1) % 2 = 1 by omega]
      simp
  | succ i =>
      rw [Nat.testBit_or, Nat.testBit_succ, Nat.testBit_succ, Nat.testBit_succ,
        show (x / 2 * 2 + 1) / 2 = x / 2 by omega]
      simp

end BitMask

end BitMask
end DexprOS
