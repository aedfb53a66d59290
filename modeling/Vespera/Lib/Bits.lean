import Mathlib.Data.Nat.Bitwise

/-! # Bit fields of natural numbers

Page-table entries and addresses keep flags in their low bits and a frame
number above them. These are the two facts that reading such a word needs: what a
mask of consecutive bits selects, and what is left without the low bits.
-/

namespace Vespera.Lib.Bits

/-- A mask of `k` bits from bit `s` on selects the field and keeps its place. -/
theorem and_field (x k s : Nat) : x &&& ((2 ^ k - 1) <<< s) = x / 2 ^ s % 2 ^ k * 2 ^ s := by
  apply Nat.eq_of_testBit_eq
  intro i
  rw [Nat.testBit_and, Nat.testBit_shiftLeft, Nat.testBit_mul_two_pow, Nat.testBit_mod_two_pow,
    Nat.testBit_div_two_pow, Nat.testBit_two_pow_sub_one]
  by_cases hi : s ≤ i
  · simp only [hi, decide_true, Bool.true_and, Nat.sub_add_cancel hi]
    rw [Bool.and_comm]
  · simp [hi]

/-- Without its low bits a number is rounded down. -/
theorem and_high {x k s : Nat} (h : x < 2 ^ (s + k)) :
    x &&& ((2 ^ k - 1) <<< s) = x / 2 ^ s * 2 ^ s := by
  rw [and_field, Nat.mod_eq_of_lt]
  exact Nat.div_lt_of_lt_mul (by rwa [← Nat.pow_add])

end Vespera.Lib.Bits
