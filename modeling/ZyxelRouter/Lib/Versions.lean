import Mathlib.Data.List.Basic
import ZyxelRouter.Lib.Decimal
import ZyxelRouter.Lib.SplitText

/-!
# Versions of numbers with dots

The order of versions by the values of their components, and the order of their texts.  Versions
with different numbers of components are compared in one of two ways: either the one whose
components end first is the older one, or missing components count as zeros.

Main results:

- Theorem {lit}`dotted_lt_iff`: texts of versions are ordered as the lists of their components are.
- Theorem {lit}`dotted_lt_iff_older_iff`: when this is the order of the versions.
- Theorem {lit}`textAgrees_of_widths`: it is if components at one place have one width.
-/

namespace ZyxelRouter
namespace Lib
namespace Version

/-- A component is a number: digits, at least one. -/
structure IsNumber (u : List Char) : Prop where
  ne : u ≠ []
  digits : ∀ c ∈ u, c.isDigit = true

/-- The text of a version. -/
def dotted (components : List (List Char)) : List Char :=
  ['.'].intercalate components

/-- The components of the second version are the newer ones; {lit}`zeros` tells whether missing
components count as zeros. -/
def older (zeros : Bool) : List Nat → List Nat → Bool
  | _, [] => false
  | [], y :: ys => !zeros || (y :: ys).any (· ≠ 0)
  | x :: xs, y :: ys => x < y || x == y && older zeros xs ys

/-- The values of the components. -/
def values (components : List (List Char)) : List Nat :=
  components.map digitsValue

/-- At the first place where two versions have different texts, these are ordered as their values
are; or their values are the same, and they are ordered as what follows.  A version that goes on
where the other one ends may have to go on with more than zeros. -/
def TextAgrees (zeros : Bool) : List (List Char) → List (List Char) → Prop
  | _, [] => True
  | [], v :: ys => zeros = true → ∃ w ∈ v :: ys, digitsValue w ≠ 0
  | u :: xs, v :: ys =>
      if u = v then TextAgrees zeros xs ys
      else if digitsValue u = digitsValue v then
        (u < v ↔ older zeros (values xs) (values ys) = true)
      else (u < v ↔ digitsValue u < digitsValue v)

/-! ## The order of texts -/

/-- What follows a component in the text. -/
def dottedRest (components : List (List Char)) : List Char :=
  components.flatMap ('.' :: ·)

theorem dotted_cons (u : List Char) (components : List (List Char)) :
    dotted (u :: components) = u ++ dottedRest components :=
  intercalate_middle '.' [] u components

theorem dot_lt_of_isDigit {c : Char} (hc : c.isDigit = true) : '.' < c := by
  have hrange := toNat_of_isDigit hc
  have hdot : '.'.toNat = 46 := rfl
  rw [Char.lt_def, UInt32.lt_iff_toNat_lt]
  show '.'.toNat < c.toNat
  omega

/-- Numbers are compared in front of what follows them, as a dot comes before all digits. -/
theorem append_rest_lt_iff {u v : List Char} (hu : ∀ c ∈ u, c.isDigit = true)
    (hv : ∀ c ∈ v, c.isDigit = true) (xs ys : List (List Char)) :
    u ++ dottedRest xs < v ++ dottedRest ys ↔ u < v ∨ u = v ∧ dottedRest xs < dottedRest ys := by
  induction u generalizing v with
  | nil =>
      cases v with
      | nil => simp
      | cons d v =>
          have hd := dot_lt_of_isDigit (hv d List.mem_cons_self)
          cases xs with
          | nil => simp [dottedRest]
          | cons x xs => simp [dottedRest, List.cons_lt_cons_iff, hd]
  | cons c u ih =>
      cases v with
      | nil =>
          have hc := dot_lt_of_isDigit (hu c List.mem_cons_self)
          have hne : c ≠ '.' := by
            rintro rfl
            exact Char.lt_irrefl _ hc
          cases ys with
          | nil => simp [dottedRest]
          | cons y ys => simp [dottedRest, List.cons_lt_cons_iff, Char.lt_asymm hc, hne]
      | cons d v =>
          have htail := ih (fun e he => hu e (List.mem_cons_of_mem c he))
            (fun e he => hv e (List.mem_cons_of_mem d he))
          rw [List.cons_append, List.cons_append, List.cons_lt_cons_iff, List.cons_lt_cons_iff, htail,
            List.cons.injEq]
          tauto

theorem dottedRest_lt_iff {xs ys : List (List Char)} (hxs : ∀ u ∈ xs, IsNumber u)
    (hys : ∀ u ∈ ys, IsNumber u) : dottedRest xs < dottedRest ys ↔ xs < ys := by
  induction xs generalizing ys with
  | nil =>
      cases ys with
      | nil => simp [dottedRest]
      | cons y ys => simp [dottedRest]
  | cons x xs ih =>
      cases ys with
      | nil => simp [dottedRest]
      | cons y ys =>
          have htail := ih (fun u hu => hxs u (List.mem_cons_of_mem x hu))
            (fun u hu => hys u (List.mem_cons_of_mem y hu))
          have hhead := append_rest_lt_iff (hxs x List.mem_cons_self).digits
            (hys y List.mem_cons_self).digits xs ys
          have hcons : ∀ (w : List Char) (ws : List (List Char)),
              dottedRest (w :: ws) = '.' :: (w ++ dottedRest ws) := by
            intro w ws
            simp [dottedRest]
          rw [hcons, hcons, List.cons_lt_cons_iff, hhead, htail, List.cons_lt_cons_iff]
          simp

/-- The texts of versions are ordered as the lists of their components are. -/
theorem dotted_lt_iff {xs ys : List (List Char)} (hxs : ∀ u ∈ xs, IsNumber u)
    (hys : ∀ u ∈ ys, IsNumber u) : dotted xs < dotted ys ↔ xs < ys := by
  cases xs with
  | nil =>
      cases ys with
      | nil => simp [dotted]
      | cons y ys =>
          rcases List.exists_cons_of_ne_nil (hys y List.mem_cons_self).ne with ⟨d, v, rfl⟩
          rw [dotted_cons]
          simp [dotted]
  | cons x xs =>
      cases ys with
      | nil => simp [dotted]
      | cons y ys =>
          rw [dotted_cons, dotted_cons,
            append_rest_lt_iff (hxs x List.mem_cons_self).digits (hys y List.mem_cons_self).digits,
            dottedRest_lt_iff (fun u hu => hxs u (List.mem_cons_of_mem x hu))
              (fun u hu => hys u (List.mem_cons_of_mem y hu)), List.cons_lt_cons_iff]

/-! ## The order of versions -/

/-- Texts are ordered as the versions are exactly when they agree in this sense. -/
theorem lt_iff_older_iff (zeros : Bool) (xs ys : List (List Char)) :
    (xs < ys ↔ older zeros (values xs) (values ys) = true) ↔ TextAgrees zeros xs ys := by
  induction xs generalizing ys with
  | nil =>
      cases ys with
      | nil => simp [TextAgrees, older, values]
      | cons v ys =>
          cases zeros with
          | false => simp [TextAgrees, older, values]
          | true => simp [TextAgrees, older, values]
  | cons u xs ih =>
      cases ys with
      | nil => simp [TextAgrees, older, values]
      | cons v ys =>
          have hcons : older zeros (values (u :: xs)) (values (v :: ys)) = true ↔
              digitsValue u < digitsValue v ∨
                digitsValue u = digitsValue v ∧ older zeros (values xs) (values ys) = true := by
            simp [older, values]
          rw [List.cons_lt_cons_iff, hcons, TextAgrees]
          by_cases huv : u = v
          · subst huv
            rw [if_pos rfl, ← ih ys]
            simp [List.lt_irrefl]
          · rw [if_neg huv]
            by_cases hvalue : digitsValue u = digitsValue v
            · simp [huv, hvalue]
            · simp [huv, hvalue]

/-- When the order of the texts of two versions is the order of the versions. -/
theorem dotted_lt_iff_older_iff (zeros : Bool) {xs ys : List (List Char)}
    (hxs : ∀ u ∈ xs, IsNumber u) (hys : ∀ u ∈ ys, IsNumber u) :
    (dotted xs < dotted ys ↔ older zeros (values xs) (values ys) = true) ↔
      TextAgrees zeros xs ys := by
  rw [dotted_lt_iff hxs hys]
  exact lt_iff_older_iff zeros xs ys

/-! ## Components of one width -/

theorem digitsValue_cons (c : Char) (u : List Char) :
    digitsValue (c :: u) = (c.toNat - 48) * 10 ^ u.length + digitsValue u := by
  rw [digitsValue, Nat.ofDigitChars_cons, Nat.ofDigitChars_eq_ofDigitChars_zero, digitsValue]
  have hzero : '0'.toNat = 48 := rfl
  rw [hzero, Nat.mul_zero, Nat.zero_add, Nat.mul_comm]

theorem digitsValue_lt {u : List Char} (hu : ∀ c ∈ u, c.isDigit = true) :
    digitsValue u < 10 ^ u.length := by
  induction u with
  | nil => decide
  | cons c u ih =>
      have htail := ih (fun d hd => hu d (List.mem_cons_of_mem c hd))
      have hc := toNat_of_isDigit (hu c List.mem_cons_self)
      have hdigit : (c.toNat - 48) * 10 ^ u.length ≤ 9 * 10 ^ u.length :=
        Nat.mul_le_mul_right _ (by omega)
      rw [digitsValue_cons, List.length_cons, Nat.pow_succ]
      omega

/-- Numbers of one width are ordered as their texts. -/
theorem lt_iff_digitsValue_lt {u v : List Char} (hu : ∀ c ∈ u, c.isDigit = true)
    (hv : ∀ c ∈ v, c.isDigit = true) (hlen : u.length = v.length) :
    u < v ↔ digitsValue u < digitsValue v := by
  induction u generalizing v with
  | nil =>
      rw [List.eq_nil_of_length_eq_zero hlen.symm]
      simp
  | cons c u ih =>
      obtain ⟨d, v, rfl⟩ := List.exists_cons_of_ne_nil (List.ne_nil_of_length_pos (by
        rw [← hlen, List.length_cons]
        omega))
      rw [List.length_cons, List.length_cons, Nat.add_right_cancel_iff] at hlen
      have htailu : ∀ e ∈ u, e.isDigit = true := fun e he => hu e (List.mem_cons_of_mem c he)
      have htailv : ∀ e ∈ v, e.isDigit = true := fun e he => hv e (List.mem_cons_of_mem d he)
      have hc := toNat_of_isDigit (hu c List.mem_cons_self)
      have hd := toNat_of_isDigit (hv d List.mem_cons_self)
      have hltu := digitsValue_lt htailu
      have hltv := digitsValue_lt htailv
      rw [hlen] at hltu
      rw [List.cons_lt_cons_iff, ih htailu htailv hlen, digitsValue_cons, digitsValue_cons, hlen,
        Char.lt_def, UInt32.lt_iff_toNat_lt]
      change c.toNat < d.toNat ∨ c = d ∧ _ ↔ _
      rcases Nat.lt_trichotomy c.toNat d.toNat with h | h | h
      · have hstep : (c.toNat - 48 + 1) * 10 ^ v.length ≤ (d.toNat - 48) * 10 ^ v.length :=
          Nat.mul_le_mul_right _ (by omega)
        rw [Nat.add_mul] at hstep
        apply iff_of_true
        · exact Or.inl h
        · omega
      · have hcd : c = d := Char.toNat_inj.mp h
        simp [hcd]
      · have hstep : (d.toNat - 48 + 1) * 10 ^ v.length ≤ (c.toNat - 48) * 10 ^ v.length :=
          Nat.mul_le_mul_right _ (by omega)
        rw [Nat.add_mul] at hstep
        apply iff_of_false
        · rintro (hlt | ⟨rfl, _⟩)
          · omega
          · omega
        · omega

/-- Versions whose components at one place have one width are ordered as their texts, if the one
whose components end first is the older one. -/
theorem textAgrees_of_widths {xs ys : List (List Char)} (hxs : ∀ u ∈ xs, IsNumber u)
    (hys : ∀ u ∈ ys, IsNumber u)
    (hwidth : ∀ pair ∈ xs.zip ys, pair.1.length = pair.2.length) : TextAgrees false xs ys := by
  induction xs generalizing ys with
  | nil =>
      cases ys with
      | nil => trivial
      | cons v ys => simp [TextAgrees]
  | cons u xs ih =>
      cases ys with
      | nil => trivial
      | cons v ys =>
          rw [List.zip_cons_cons] at hwidth
          have hhead := lt_iff_digitsValue_lt (hxs u List.mem_cons_self).digits
            (hys v List.mem_cons_self).digits (hwidth (u, v) List.mem_cons_self)
          have hback := lt_iff_digitsValue_lt (hys v List.mem_cons_self).digits
            (hxs u List.mem_cons_self).digits (hwidth (u, v) List.mem_cons_self).symm
          have htail := ih (fun w hw => hxs w (List.mem_cons_of_mem u hw))
            (fun w hw => hys w (List.mem_cons_of_mem v hw))
            (fun pair hpair => hwidth pair (List.mem_cons_of_mem (u, v) hpair))
          rw [TextAgrees]
          by_cases huv : u = v
          · rw [if_pos huv]
            exact htail
          · rw [if_neg huv]
            by_cases hvalue : digitsValue u = digitsValue v
            · -- texts of one width with one value are the same
              exfalso
              apply huv
              exact List.le_antisymm (List.not_lt.mp (by rw [hback]; omega))
                (List.not_lt.mp (by rw [hhead]; omega))
            · rw [if_neg hvalue]
              exact hhead

end Version
end Lib
end ZyxelRouter
