import Mathlib.Data.List.Range

/-!
# Skipping a number of places

A walk over the numbers from {lit}`k` on that skips {lit}`count` numbers with a property and stops at the
next one.

Main results:

- Theorem {lit}`skipCount_eq_some_iff`: where the walk stops.
- Theorem {lit}`skipCount_isSome_iff`: when it stops.
-/

namespace ZyxelRouter
namespace Lib

/-- The walk over {lit}`n` numbers from {lit}`k` on; the counter goes below zero at the place. -/
def skipCount (p : Nat → Bool) : Nat → Nat → Int → Option Nat
  | 0, _, _ => none
  | n + 1, k, count =>
      let count' := if p k then count - 1 else count
      if count' < 0 then some k else skipCount p n (k + 1) count'

section Walk

variable {p : Nat → Bool} {n k : Nat}

theorem skipCount_stop (h : p k = true) : skipCount p (n + 1) k 0 = some k := by
  simp only [skipCount, h, if_true]
  rfl

theorem skipCount_hit (h : p k = true) (count : Nat) :
    skipCount p (n + 1) k ((count + 1 : Nat) : Int) = skipCount p n (k + 1) count := by
  have hsub : ((count + 1 : Nat) : Int) - 1 = count := by omega
  simp only [skipCount, h, if_true, hsub]
  rw [if_neg (by omega)]

theorem skipCount_miss (h : p k = false) (count : Nat) :
    skipCount p (n + 1) k count = skipCount p n (k + 1) count := by
  simp only [skipCount, h, Bool.false_eq_true, if_false]
  rw [if_neg (by omega)]

theorem countP_range'_hit (h : p k = true) (m : Nat) :
    (List.range' k (m + 1)).countP p = (List.range' (k + 1) m).countP p + 1 := by
  rw [List.range'_succ, List.countP_cons_of_pos h]

theorem countP_range'_miss (h : p k = false) (m : Nat) :
    (List.range' k (m + 1)).countP p = (List.range' (k + 1) m).countP p := by
  rw [List.range'_succ, List.countP_cons_of_neg (by simp [h])]

end Walk

/-- The walk stops at the number with the property that has {lit}`count` such numbers in front of it. -/
theorem skipCount_eq_some_iff (p : Nat → Bool) :
    ∀ (n k count j : Nat),
      skipCount p n k count = some j ↔
        k ≤ j ∧ j < k + n ∧ p j = true ∧ (List.range' k (j - k)).countP p = count := by
  intro n
  induction n with
  | zero =>
      intro k count j
      refine iff_of_false (by simp [skipCount]) ?_
      rintro ⟨hkj, hjk, -⟩
      omega
  | succ n ih =>
      intro k count j
      -- behind {lit}`k` the numbers in front of {lit}`j` are those from {lit}`k + 1` on
      have hbehind : k + 1 ≤ j → j - k = (j - (k + 1)) + 1 := by omega
      cases hk : p k with
      | true =>
          cases count with
          | zero =>
              have hstop : skipCount p (n + 1) k ((0 : Nat) : Int) = some k := skipCount_stop hk
              rw [hstop]
              constructor
              · rintro heq
                cases heq
                exact ⟨Nat.le_refl k, by omega, hk, by simp⟩
              · rintro ⟨hkj, -, -, hcount⟩
                rcases Nat.eq_or_lt_of_le hkj with rfl | hlt
                · rfl
                · rw [hbehind hlt, countP_range'_hit hk] at hcount
                  omega
          | succ count =>
              rw [skipCount_hit hk, ih]
              constructor
              · rintro ⟨hkj, hjk, hj, hcount⟩
                refine ⟨by omega, by omega, hj, ?_⟩
                rw [hbehind hkj, countP_range'_hit hk, hcount]
              · rintro ⟨hkj, hjk, hj, hcount⟩
                rcases Nat.eq_or_lt_of_le hkj with rfl | hlt
                · simp at hcount
                · rw [hbehind hlt, countP_range'_hit hk] at hcount
                  exact ⟨hlt, by omega, hj, by omega⟩
      | false =>
          rw [skipCount_miss hk, ih]
          constructor
          · rintro ⟨hkj, hjk, hj, hcount⟩
            refine ⟨by omega, by omega, hj, ?_⟩
            rw [hbehind hkj, countP_range'_miss hk, hcount]
          · rintro ⟨hkj, hjk, hj, hcount⟩
            rcases Nat.eq_or_lt_of_le hkj with rfl | hlt
            · rw [hk] at hj
              cases hj
            · rw [hbehind hlt, countP_range'_miss hk] at hcount
              exact ⟨hlt, by omega, hj, hcount⟩

/-- The walk stops if more than {lit}`count` numbers have the property. -/
theorem skipCount_isSome_iff (p : Nat → Bool) :
    ∀ (n k count : Nat),
      (skipCount p n k count).isSome ↔ count < (List.range' k n).countP p := by
  intro n
  induction n with
  | zero =>
      intro k count
      simp [skipCount]
  | succ n ih =>
      intro k count
      cases hk : p k with
      | true =>
          rw [countP_range'_hit hk]
          cases count with
          | zero =>
              have hstop : skipCount p (n + 1) k ((0 : Nat) : Int) = some k := skipCount_stop hk
              rw [hstop]
              exact iff_of_true rfl (Nat.succ_pos _)
          | succ count =>
              rw [skipCount_hit hk, ih]
              omega
      | false => rw [skipCount_miss hk, countP_range'_miss hk, ih]

end Lib
end ZyxelRouter
