import Mathlib.Algebra.Order.Group.Nat
import Mathlib.Data.Nat.Bitwise

/-!
# Masks of powers of two in 32 bits

C code rounds to multiples of a power of two with bit masks.

Main results:

- Theorem {lit}`and_sub_two_pow`: clearing the low bits of a 32-bit value.
- Theorem {lit}`eq_two_pow_of_and_pred`: the usual test for powers of two.
-/

namespace ZyxelRouter
namespace Lib

/-- The mask {lit}`~(2^e) + 1` clears the low {lit}`e` bits. -/
theorem and_sub_two_pow {e x : Nat} (he : e ≤ 32) (hx : x < 2 ^ 32) :
    x &&& (2 ^ 32 - 2 ^ e) = x / 2 ^ e * 2 ^ e := by
  have hmask : 2 ^ 32 - 2 ^ e = (2 ^ (32 - e) - 1) <<< e := by
    rw [Nat.shiftLeft_eq, Nat.sub_mul, ← Nat.pow_add, Nat.one_mul]
    congr 2
    omega
  have hdiv : x / 2 ^ e < 2 ^ (32 - e) := by
    rw [Nat.div_lt_iff_lt_mul (Nat.two_pow_pos e), ← Nat.pow_add]
    have hsum : 32 - e + e = 32 := by omega
    rw [hsum]
    exact hx
  have hsplit : x / 2 ^ e * 2 ^ e = (x >>> e) <<< e := by
    rw [Nat.shiftLeft_eq, Nat.shiftRight_eq_div_pow]
  rw [hmask, hsplit]
  have hkeep : x >>> e = (x >>> e) &&& (2 ^ (32 - e) - 1) := by
    rw [Nat.and_two_pow_sub_one_eq_mod, Nat.shiftRight_eq_div_pow, Nat.mod_eq_of_lt hdiv]
  apply Nat.eq_of_testBit_eq
  intro i
  simp only [Nat.testBit_and, Nat.testBit_shiftLeft]
  by_cases hi : e ≤ i
  · have hbit := congrArg (fun m => m.testBit (i - e)) hkeep
    simp only [Nat.testBit_and, Nat.testBit_shiftRight] at hbit ⊢
    have hadd : e + (i - e) = i := by omega
    rw [hadd] at hbit ⊢
    simp only [hi, decide_true, Bool.true_and]
    exact hbit.symm
  · simp [hi]

/-- A number without a bit in common with its predecessor is a power of two. -/
theorem eq_two_pow_of_and_pred {n : Nat} (hpos : n ≠ 0) (h : n &&& (n - 1) = 0) :
    n = 2 ^ Nat.log2 n := by
  have hle : 2 ^ Nat.log2 n ≤ n := Nat.log2_self_le hpos
  by_contra hne
  have hlt : 2 ^ Nat.log2 n ≤ n - 1 := by omega
  have hbit : (n &&& (n - 1)).testBit (Nat.log2 n) = true := by
    have hupper : n < 2 ^ (Nat.log2 n + 1) := Nat.lt_log2_self
    have hone : ∀ m, 2 ^ Nat.log2 n ≤ m → m < 2 ^ (Nat.log2 n + 1) →
        m.testBit (Nat.log2 n) = true := by
      intro m hm hm'
      rw [Nat.testBit_eq_decide_div_mod_eq]
      have hdiv : m / 2 ^ Nat.log2 n = 1 := by
        apply Nat.div_eq_of_lt_le
        · omega
        · rw [Nat.pow_succ] at hm'
          omega
      simp [hdiv]
    rw [Nat.testBit_and, hone n hle hupper, hone (n - 1) hlt (by omega)]
    rfl
  rw [h] at hbit
  simp at hbit

end Lib
end ZyxelRouter
