import Mathlib.Algebra.Ring.Int.Defs
import Mathlib.Algebra.Ring.Nat
import Mathlib.Data.List.Basic
import Mathlib.Data.List.Induction
import Mathlib.Data.List.TakeWhile

/-!
# Decimal numerals

Printing a natural number with {lit}`%u` and reading digits back.

Main results:

- Theorem {lit}`digitsValue_decimal`: what was printed is read back.
- Theorem {lit}`decimal_digitsValue`: digits without leading zeros are printed for their value.
- Theorem {lit}`takeWhile_decimal_append`: the digits of a numeral end at the first other
  character.
-/

namespace ZyxelRouter
namespace Lib

/-- {lit}`isspace`. -/
def isSpace (c : Char) : Bool :=
  c = ' ' || 9 ≤ c.toNat && c.toNat ≤ 13

/-- The digits of a number as {lit}`%u` prints them. -/
def decimal (n : Nat) : List Char :=
  Nat.toDigits 10 n

/-- The number that a list of digits stands for. -/
def digitsValue (ds : List Char) : Nat :=
  Nat.ofDigitChars 10 ds 0

/-- {lit}`atoi` before the value is cut to an {lit}`int`: blanks, an optional sign, and the digits
that follow. -/
def atoi (cs : List Char) : Int :=
  match cs.dropWhile isSpace with
  | '-' :: rest => -(digitsValue (rest.takeWhile Char.isDigit) : Int)
  | '+' :: rest => digitsValue (rest.takeWhile Char.isDigit)
  | rest => digitsValue (rest.takeWhile Char.isDigit)

/-- The {lit}`int` that {lit}`atoi` returns; the sum wraps. -/
def atoiInt (value : List Char) : Int :=
  (atoi value).bmod (2 ^ 32)

theorem digitsValue_decimal (n : Nat) : digitsValue (decimal n) = n :=
  Nat.ofDigitChars_ten_toDigits

theorem decimal_injective : Function.Injective decimal := by
  intro m n h
  rw [← digitsValue_decimal m, h, digitsValue_decimal]

theorem decimal_ne_nil (n : Nat) : decimal n ≠ [] :=
  Nat.toDigits_ne_nil

theorem isDigit_of_mem_decimal {n : Nat} {c : Char} (h : c ∈ decimal n) : c.isDigit = true :=
  Nat.isDigit_of_mem_toDigits (by omega) (by omega) h

/-- The code of a digit. -/
theorem toNat_of_isDigit {c : Char} (h : c.isDigit = true) : 48 ≤ c.toNat ∧ c.toNat ≤ 57 := by
  simpa [Char.isDigit, UInt32.le_iff_toNat_le] using h

/-- A digit is neither blank nor a sign. -/
theorem not_isSpace_of_isDigit {c : Char} (h : c.isDigit = true) :
    isSpace c = false ∧ c ≠ '-' ∧ c ≠ '+' := by
  have hrange := toNat_of_isDigit h
  refine ⟨?_, ?_, ?_⟩
  · simp only [isSpace, Bool.or_eq_false_iff, Bool.and_eq_false_iff, decide_eq_false_iff_not]
    refine ⟨?_, by omega⟩
    rintro rfl
    exact absurd hrange (by decide)
  · rintro rfl
    exact absurd h (by decide)
  · rintro rfl
    exact absurd h (by decide)

/-- The digits of a numeral end at the first other character. -/
theorem takeWhile_decimal_append (n : Nat) {rest : List Char}
    (hrest : ∀ c ∈ rest.head?, c.isDigit = false) :
    (decimal n ++ rest).takeWhile Char.isDigit = decimal n := by
  have hall : ∀ c ∈ decimal n, c.isDigit = true := fun c hc => isDigit_of_mem_decimal hc
  rw [List.takeWhile_append_of_pos hall]
  cases rest with
  | nil => simp
  | cons c rest =>
      have hc : c.isDigit = false := hrest c rfl
      simp [hc]

/-- {lit}`atoi` of a list of digits. -/
theorem atoi_digits {ds : List Char} (hne : ds ≠ []) (hds : ∀ c ∈ ds, c.isDigit = true) :
    atoi ds = digitsValue ds := by
  obtain ⟨c, cs, rfl⟩ := List.exists_cons_of_ne_nil hne
  obtain ⟨hspace, hminus, hplus⟩ := not_isSpace_of_isDigit (hds c List.mem_cons_self)
  have hdrop : (c :: cs).dropWhile isSpace = c :: cs :=
    List.dropWhile_cons_of_neg (by simp [hspace])
  have htake : (c :: cs).takeWhile Char.isDigit = c :: cs := List.takeWhile_eq_self_iff.mpr hds
  rw [atoi, hdrop]
  split
  · rename_i heq
    exact absurd (List.cons.inj heq).1 hminus
  · rename_i heq
    exact absurd (List.cons.inj heq).1 hplus
  · rw [htake]

theorem digitsValue_concat (ds : List Char) (d : Char) :
    digitsValue (ds ++ [d]) = 10 * digitsValue ds + (d.toNat - '0'.toNat) := by
  rw [digitsValue, Nat.ofDigitChars_append, Nat.ofDigitChars_cons, Nat.ofDigitChars_nil]
  rfl

/-- A digit is printed for its value. -/
theorem decimal_digit {d : Char} (hd : d.isDigit = true) :
    decimal (d.toNat - '0'.toNat) = [d] := by
  have hall : ∀ n < 58, 48 ≤ n → decimal (n - '0'.toNat) = [Char.ofNat n] := by decide
  obtain ⟨hlo, hhi⟩ := toNat_of_isDigit hd
  rw [hall d.toNat (by omega) hlo, Char.ofNat_toNat]

/-- Digits without leading zeros are printed for their value. -/
theorem decimal_digitsValue :
    ∀ (ds : List Char),
      ds ≠ [] →
      (∀ d ∈ ds, d.isDigit = true) →
      (ds.head? = some '0' → ds = ['0']) →
      decimal (digitsValue ds) = ds := by
  intro ds
  induction ds using List.reverseRecOn with
  | nil =>
      intro hne
      exact absurd rfl hne
  | append_singleton ds d ih =>
      intro _ hds hzero
      have hd : d.isDigit = true := hds d (by simp)
      have hlt : d.toNat - '0'.toNat < 10 := by
        have hrange := toNat_of_isDigit hd
        have hzeroCode : '0'.toNat = 48 := rfl
        omega
      cases ds with
      | nil =>
          have hnone : digitsValue [] = 0 := rfl
          rw [digitsValue_concat, hnone, Nat.mul_zero, Nat.zero_add, decimal_digit hd]
          rfl
      | cons x xs =>
          have hx : x ≠ '0' := by
            rintro rfl
            simpa using hzero rfl
          have hprint := ih (by simp) (fun y hy => hds y (List.mem_append_left _ hy))
            (fun hhead => absurd (Option.some.inj hhead) hx)
          have hpos : 0 < digitsValue (x :: xs) := by
            apply Nat.pos_of_ne_zero
            intro hvalue
            rw [hvalue] at hprint
            exact hx (List.cons.inj hprint).1.symm
          rw [digitsValue_concat, decimal, ← Nat.toDigits_append_toDigits (by omega) hpos hlt]
          exact congrArg₂ (· ++ ·) hprint (decimal_digit hd)

end Lib
end ZyxelRouter
