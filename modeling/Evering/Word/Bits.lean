import Mathlib.Data.Nat.Bitwise

/-!
# Packed words

Masks, shifts and disjoint unions of natural numbers as division, remainder and sum, so that facts
about the fields of a packed word become linear arithmetic.
-/

namespace Evering.Word

theorem and_ones (x n : Nat) : x &&& ((1 <<< n) - 1) = x % 2 ^ n := by
  rw [Nat.one_shiftLeft, Nat.and_two_pow_sub_one_eq_mod]

theorem and_ones_shift (x n i : Nat) : (x &&& (((1 <<< n) - 1) <<< i)) >>> i = x / 2 ^ i % 2 ^ n := by
  rw [Nat.shiftRight_and_distrib, Nat.shiftLeft_shiftRight, and_ones, Nat.shiftRight_eq_div_pow]

theorem and_bit (x i : Nat) : x &&& (1 <<< i) = x / 2 ^ i % 2 * 2 ^ i := by
  rw [Nat.one_shiftLeft, Nat.and_two_pow, Nat.testBit_eq_decide_div_mod_eq]
  rcases Nat.mod_two_eq_zero_or_one (x / 2 ^ i) with h | h <;> simp [h]

theorem shiftLeft_or {b n : Nat} (a : Nat) (h : b < 2 ^ n) : (a <<< n) ||| b = a * 2 ^ n + b := by
  rw [Nat.shiftLeft_eq, Nat.mul_comm, Nat.two_pow_add_eq_or_of_lt h]

theorem or_shiftLeft {b n : Nat} (a : Nat) (h : b < 2 ^ n) : b ||| (a <<< n) = a * 2 ^ n + b := by
  rw [Nat.or_comm, shiftLeft_or a h]

end Evering.Word
